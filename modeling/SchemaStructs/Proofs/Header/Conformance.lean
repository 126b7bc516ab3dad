import Mathlib.Data.List.TakeWhile
import SchemaStructs.Proofs.Header.Evaluation
import SchemaStructs.Proofs.Merge.Unfolding

set_option autoImplicit false

namespace SchemaStructs

variable {ν : Type}

/-- Null conforms to types that allow it only, and a struct wants all its required keys; other
keys do not matter. -/
inductive Conforms (structs : List Struct) : FieldType String → Dynamic ν → Prop
  | bool (b : Bool) : Conforms structs .bool (.bool b)
  | number (n : ν) : Conforms structs .number (.number n)
  | string (text : String) : Conforms structs .string (.string text)
  | generic (d : Dynamic ν) : Conforms structs .generic d
  | enum {members : List String} {text : String} (mem : text ∈ members) :
      Conforms structs (.enum members) (.string text)
  | array {t : FieldType String} {items : List (Dynamic ν)}
      (each : ∀ d ∈ items, Conforms structs t d) : Conforms structs (.array t) (.array items)
  | null {t : FieldType String} : Conforms structs (.nullable t) .null
  | inner {t : FieldType String} {d : Dynamic ν} (h : Conforms structs t d) :
      Conforms structs (.nullable t) d
  | struct {s : Struct} {entries : List (String × Dynamic ν)} (mem : s ∈ structs)
      (present : ∀ f ∈ s.fields, f.optional = false → ∃ d, entries.lookup f.name = some d)
      (values : ∀ f ∈ s.fields, ∀ d, entries.lookup f.name = some d → Conforms structs f.type d) :
      Conforms structs (.struct s.name) (.object entries)

def Field.Fits (structs : List Struct) (entries : List (String × Dynamic ν)) (f : Field) : Prop :=
  (f.optional = false → ∃ d, entries.lookup f.name = some d) ∧
    ∀ d, entries.lookup f.name = some d → Conforms structs f.type d

theorem Conforms.exists_struct {structs : List Struct} {name : String} {d : Dynamic ν}
    (h : Conforms structs (.struct name) d) :
    ∃ s ∈ structs, s.name = name ∧ ∃ entries, d = .object entries ∧
      ∀ f ∈ s.fields, f.Fits structs entries := by
  cases h with
  | struct mem present values =>
    exact ⟨_, mem, rfl, _, rfl, fun f hf => ⟨present f hf, values f hf⟩⟩

theorem conforms_object_iff {structs : List Struct} (hlinked : Linked structs) {s : Struct}
    (hs : s ∈ structs) {entries : List (String × Dynamic ν)} :
    Conforms structs (.struct s.name) (.object entries) ↔
      ∀ f ∈ s.fields, f.Fits structs entries := by
  constructor
  · intro h
    obtain ⟨t, ht, hname, es, hes, hfits⟩ := h.exists_struct
    cases hes
    exact hlinked.eq_of_name ht hs hname ▸ hfits
  · intro h
    exact .struct hs (fun f hf => (h f hf).1) fun f hf => (h f hf).2

namespace FieldType

variable {ρ : Type}

def core : FieldType ρ → FieldType ρ
  | .nullable inner => inner.core
  | t => t

def enumMembers : FieldType ρ → List String
  | .enum members => members
  | .array element => element.enumMembers
  | .nullable inner => inner.enumMembers
  | _ => []

end FieldType

/-- The field's name and enum members, which are all texts of a schema that C++ compares. -/
def Field.texts (f : Field) : List String := f.name :: f.type.enumMembers

def NulFree (s : String) : Prop := '\x00' ∉ s.toList

instance (s : String) : Decidable (NulFree s) := inferInstanceAs (Decidable ('\x00' ∉ s.toList))

theorem cString_eq {s : String} (h : NulFree s) : cString s = s := by
  have htake : s.toList.takeWhile (· != '\x00') = s.toList := by
    refine List.takeWhile_eq_self_iff.2 fun c hc => ?_
    rw [bne_iff_ne]
    rintro rfl
    exact h hc
  rw [cString, htake, String.ofList_toList]

namespace Dynamic

variable (structs : List Struct)

mutual

/-- The part of a value that its type declares: of the entries of a struct those of its fields, in
their order. -/
def declared : Dynamic ν → FieldType String → Dynamic ν
  | .array items, t =>
    match t.core with
    | .array element => .array (itemsDeclared items element)
    | _ => .array items
  | .object entries, t =>
    match t.core with
    | .struct name =>
      match structNamed structs name with
      | some s =>
        .object (s.fields.filterMap fun f =>
          ((entriesDeclared entries).lookup f.name).map fun part => (f.name, part f.type))
      | none => .object entries
    | _ => .object entries
  | d, _ => d

def itemsDeclared : List (Dynamic ν) → FieldType String → List (Dynamic ν)
  | [], _ => []
  | d :: ds, t => d.declared t :: itemsDeclared ds t

def entriesDeclared : List (String × Dynamic ν) → List (String × (FieldType String → Dynamic ν))
  | [] => []
  | (key, d) :: es => (key, fun t => d.declared t) :: entriesDeclared es

end

variable {structs}

@[simp] theorem declared_nullable (d : Dynamic ν) (t : FieldType String) :
    d.declared structs (.nullable t) = d.declared structs t := by
  cases d <;> rfl

@[simp] theorem isNull_declared (d : Dynamic ν) (t : FieldType String) :
    (d.declared structs t).isNull = d.isNull := by
  cases d with
  | array items =>
    rw [declared]
    split <;> rfl
  | object entries =>
    rw [declared]
    split
    · split <;> rfl
    · rfl
  | _ => rfl

@[simp] theorem declared_generic (d : Dynamic ν) : d.declared structs .generic = d := by
  cases d <;> rfl

@[simp] theorem declared_array (items : List (Dynamic ν)) (t : FieldType String) :
    (Dynamic.array items).declared structs (.array t) =
      .array (items.map (·.declared structs t)) := by
  have hitems : itemsDeclared structs items t = items.map (·.declared structs t) := by
    induction items with
    | nil => rfl
    | cons d items ih => rw [itemsDeclared, ih, List.map_cons]
  simp only [declared, FieldType.core, hitems]

@[simp] theorem lookup_entriesDeclared (entries : List (String × Dynamic ν)) (key : String) :
    (entriesDeclared structs entries).lookup key =
      (entries.lookup key).map fun d => d.declared structs := by
  induction entries with
  | nil => rfl
  | cons e entries ih =>
    obtain ⟨k, d⟩ := e
    rw [entriesDeclared, List.lookup_cons, List.lookup_cons, ih]
    cases key == k <;> rfl

def part? (structs : List Struct) (entries : List (String × Dynamic ν)) (f : Field) :
    Option (String × Dynamic ν) :=
  (entries.lookup f.name).map fun d => (f.name, d.declared structs f.type)

theorem declared_struct (hlinked : Linked structs) {s : Struct} (hs : s ∈ structs)
    (entries : List (String × Dynamic ν)) :
    (Dynamic.object entries).declared structs (.struct s.name) =
      .object (s.fields.filterMap (part? structs entries)) := by
  simp only [declared, FieldType.core, hlinked.structNamed_eq hs, lookup_entriesDeclared,
    Option.map_map]
  rfl

end Dynamic

end SchemaStructs
