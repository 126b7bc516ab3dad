/-!
The values on both sides of the conversions: dynamic values, which are trees of null, scalars,
arrays and objects, and the C++ values that they become. What a number is does not matter.
-/

set_option autoImplicit false

namespace SchemaStructs

/-- Dynamic values. Of the entries of an object with one key only the first counts. -/
inductive Dynamic (ν : Type) where
  | null
  | bool (value : Bool)
  | number (value : ν)
  | string (text : String)
  | array (items : List (Dynamic ν))
  | object (entries : List (String × Dynamic ν))

inductive Value (ν : Type) where
  | bool (value : Bool)
  | number (value : ν)
  | text (value : String)
  | dynamic (value : Dynamic ν)
  | object (struct : String) (members : List (String × Value ν))
  | list (items : List (Value ν))
  /-- An optional without a value, or a null pointer. -/
  | nothing
  /-- An optional or a pointer that holds a value. -/
  | just (value : Value ν)

section

variable {α : Type} {key : String}

/-- The entries once the key has the value. -/
def put (key : String) (a : α) : List (String × α) → List (String × α)
  | [] => [(key, a)]
  | (k, b) :: es => if k = key then (k, a) :: es else (k, b) :: put key a es

theorem put_append {before : List (String × α)} (h : key ∉ before.map (·.1)) (a : α)
    (rest : List (String × α)) : put key a (before ++ rest) = before ++ put key a rest := by
  induction before with
  | nil => rfl
  | cons e before ih =>
    rw [List.map_cons, List.mem_cons, not_or] at h
    rw [List.cons_append, put, if_neg (Ne.symm h.1), ih h.2, List.cons_append]

theorem put_of_notMem {entries : List (String × α)} (h : key ∉ entries.map (·.1)) (a : α) :
    put key a entries = entries ++ [(key, a)] := by
  simpa [put] using put_append h a []

@[simp] theorem put_cons_self (a b : α) (rest : List (String × α)) :
    put key a ((key, b) :: rest) = (key, a) :: rest := if_pos rfl

end

variable {ν : Type}

namespace Dynamic

def isNull : Dynamic ν → Bool
  | .null => true
  | _ => false

mutual

def depth : Dynamic ν → Nat
  | .array items => itemsDepth items + 1
  | .object entries => entriesDepth entries + 1
  | _ => 0

def itemsDepth : List (Dynamic ν) → Nat
  | [] => 0
  | d :: ds => max d.depth (itemsDepth ds)

def entriesDepth : List (String × Dynamic ν) → Nat
  | [] => 0
  | (_, d) :: es => max d.depth (entriesDepth es)

end

theorem depth_lt_of_mem {items : List (Dynamic ν)} {d : Dynamic ν} (h : d ∈ items) :
    d.depth < (Dynamic.array items).depth := by
  rw [depth, Nat.lt_succ_iff]
  induction items with
  | nil => cases h
  | cons e items ih =>
    rw [itemsDepth]
    rcases List.mem_cons.1 h with rfl | h
    · exact Nat.le_max_left _ _
    · exact Nat.le_trans (ih h) (Nat.le_max_right _ _)

theorem depth_lt_of_lookup {entries : List (String × Dynamic ν)} {key : String} {d : Dynamic ν}
    (h : entries.lookup key = some d) : d.depth < (Dynamic.object entries).depth := by
  rw [depth, Nat.lt_succ_iff]
  induction entries with
  | nil => cases h
  | cons e entries ih =>
    rw [List.lookup_cons] at h
    rw [entriesDepth]
    split at h
    · cases h
      exact Nat.le_max_left _ _
    · exact Nat.le_trans (ih h) (Nat.le_max_right _ _)

end Dynamic

namespace Value

def target? : Value ν → Option (Value ν)
  | .just v => some v
  | _ => none

mutual

def depth : Value ν → Nat
  | .object _ members => membersDepth members + 1
  | .list items => itemsDepth items + 1
  | .just v => v.depth + 1
  | _ => 0

def itemsDepth : List (Value ν) → Nat
  | [] => 0
  | v :: vs => max v.depth (itemsDepth vs)

def membersDepth : List (String × Value ν) → Nat
  | [] => 0
  | (_, v) :: ms => max v.depth (membersDepth ms)

end

theorem depth_lt_of_mem {items : List (Value ν)} {v : Value ν} (h : v ∈ items) :
    v.depth < (Value.list items).depth := by
  rw [depth, Nat.lt_succ_iff]
  induction items with
  | nil => cases h
  | cons w items ih =>
    rw [itemsDepth]
    rcases List.mem_cons.1 h with rfl | h
    · exact Nat.le_max_left _ _
    · exact Nat.le_trans (ih h) (Nat.le_max_right _ _)

theorem depth_lt_of_lookup {name ident : String} {members : List (String × Value ν)} {v : Value ν}
    (h : members.lookup ident = some v) : v.depth < (Value.object name members).depth := by
  rw [depth, Nat.lt_succ_iff]
  induction members with
  | nil => cases h
  | cons m members ih =>
    rw [List.lookup_cons] at h
    rw [membersDepth]
    split at h
    · cases h
      exact Nat.le_max_left _ _
    · exact Nat.le_trans (ih h) (Nat.le_max_right _ _)

end Value

end SchemaStructs
