import SchemaStructs.Header.Struct
import SchemaStructs.Proofs.Header.Dynamic
import SchemaStructs.Proofs.Outcome

/-!
What the conversions of a header compute. Every expression has the meaning that its constructs
have in C++, with the checks of the runtime; calls between structs go as deep as the value does.
-/

set_option autoImplicit false

namespace SchemaStructs

inductive Refusal where
  | missingField (struct field : String)
  | typeMismatch (struct field expected : String)
  /-- The code refers to something that is not there. -/
  | undefined
  deriving DecidableEq, Repr

/-- The text that a literal stands for where a C string is wanted: a null character ends it. -/
def cString (s : String) : String := String.ofList (s.toList.takeWhile (· != '\x00'))

structure Names where
  struct : String
  field : String

variable {ν : Type}

namespace Dynamic

def mismatch {α : Type} (names : Names) (expected : String) : Except Refusal α :=
  .error (.typeMismatch (cString names.struct) (cString names.field) expected)

def expectObject (names : Names) : Dynamic ν → Except Refusal (List (String × Dynamic ν))
  | .object entries => .ok entries
  | _ => mismatch names "object"

def expectArray (names : Names) : Dynamic ν → Except Refusal (List (Dynamic ν))
  | .array items => .ok items
  | _ => mismatch names "array"

def expectBool (names : Names) : Dynamic ν → Except Refusal Bool
  | .bool b => .ok b
  | _ => mismatch names "bool"

def expectNumber (names : Names) : Dynamic ν → Except Refusal ν
  | .number n => .ok n
  | _ => mismatch names "number"

def expectString (names : Names) : Dynamic ν → Except Refusal String
  | .string s => .ok s
  | _ => mismatch names "string"

def find (key : String) : Dynamic ν → Except Refusal (Option (Dynamic ν))
  | .object entries => .ok (entries.lookup (cString key))
  | _ => .error .undefined

def expectOneOf (names : Names) (members : List String) (d : Dynamic ν) : Except Refusal String :=
  do
    let text ← d.expectString names
    if members.any (text == cString ·) then return text
    mismatch names "enum member"

end Dynamic

abbrev Scope (α : Type) := Place → Option α

namespace Scope

variable {α : Type}

def find (scope : Scope α) (p : Place) : Except Refusal α :=
  match scope p with
  | some a => .ok a
  | none => .error .undefined

def bind (scope : Scope α) (p : Place) (a : α) : Scope α :=
  fun q => if q = p then some a else scope q

@[simp] theorem bind_self (scope : Scope α) (p : Place) (a : α) : scope.bind p a p = some a :=
  if_pos rfl

end Scope

def Scope.value? (scope : Scope (Value ν)) : Place → Option (Value ν)
  | .target p => (scope.value? p).bind Value.target?
  | p => scope p

def ReadExpr.eval (call : String → Dynamic ν → Except Refusal (Value ν)) (names : Names) :
    ReadExpr → Scope (Dynamic ν) → Except Refusal (Value ν)
  | .bool s, scope => do return .bool (← (← scope.find s).expectBool names)
  | .number s, scope => do return .number (← (← scope.find s).expectNumber names)
  | .string s, scope => do return .text (← (← scope.find s).expectString names)
  | .oneOf s members, scope => do return .text (← (← scope.find s).expectOneOf names members)
  | .dynamic s, scope => do return .dynamic (← scope.find s)
  | .struct name s, scope => do call name (← scope.find s)
  | .shared name s, scope => do return .just (← call name (← scope.find s))
  | .vector _ depth s each, scope => do
    let items ← (← scope.find s).expectArray names
    return .list (← items.mapM fun item => each.eval call names (scope.bind (.item depth) item))
  | .optional _ s value, scope => do
    if (← scope.find s).isNull then return .nothing
    return .just (← value.eval call names scope)

def WriteExpr.eval (call : Value ν → Except Refusal (Dynamic ν)) :
    WriteExpr → Scope (Value ν) → Except Refusal (Dynamic ν)
  | .scalar s, scope =>
    match scope.value? s with
    | some (.bool b) => .ok (.bool b)
    | some (.number n) => .ok (.number n)
    | some (.text t) => .ok (.string t)
    | _ => .error .undefined
  | .dynamic s, scope =>
    match scope.value? s with
    | some (.dynamic d) => .ok d
    | _ => .error .undefined
  | .struct s, scope =>
    match scope.value? s with
    | some v => call v
    | none => .error .undefined
  | .shared s, scope =>
    match scope.value? s with
    | some (.just v) => call v
    | some .nothing => .ok .null
    | _ => .error .undefined
  | .vector depth s each, scope =>
    match scope.value? s with
    | some (.list items) => do
      return .array (← items.mapM fun item => each.eval call (scope.bind (.item depth) item))
    | _ => .error .undefined
  | .optional s value, scope =>
    match scope.value? s with
    | some (.just _) => value.eval call scope
    | some .nothing => .ok .null
    | _ => .error .undefined

def Assignment.eval (call : String → Dynamic ν → Except Refusal (Value ν)) (names : Names)
    (field : Dynamic ν) (members : List (String × Value ν)) (a : Assignment) :
    Except Refusal (List (String × Value ν)) := do
  let v ← a.value.eval call names (Scope.bind (fun _ => none) (.target .field) field)
  return put a.ident (if a.wraps then .just v else v) members

/-- The members of `result` after a statement. They begin with nothing in them; all but optionals
are assigned in any case. -/
def ReadStatement.eval (call : String → Dynamic ν → Except Refusal (Value ν)) (s : CppStruct)
    (value : Dynamic ν) (members : List (String × Value ν)) :
    ReadStatement → Except Refusal (List (String × Value ν))
  | .expectObject => do
    let _ ← value.expectObject ⟨s.name, "<value>"⟩
    return members
  | .declare => .ok (s.members.map fun m => (m.ident, .nothing))
  | .ifPresent key a => do
    match ← value.find key with
    | some field => a.eval call ⟨s.name, key⟩ field members
    | none => return members
  | .require key a => do
    match ← value.find key with
    | some field => a.eval call ⟨s.name, key⟩ field members
    | none => .error (.missingField (cString s.name) (cString key))

@[simp] theorem ReadStatement.eval_expectObject
    (call : String → Dynamic ν → Except Refusal (Value ν)) (s : CppStruct)
    (entries : List (String × Dynamic ν)) (members : List (String × Value ν)) :
    expectObject.eval call s (.object entries) members = .ok members := rfl

@[simp] theorem ReadStatement.eval_declare (call : String → Dynamic ν → Except Refusal (Value ν))
    (s : CppStruct) (value : Dynamic ν) (members : List (String × Value ν)) :
    declare.eval call s value members = .ok (s.members.map fun m => (m.ident, .nothing)) := rfl

def WriteStatement.eval (call : Value ν → Except Refusal (Dynamic ν)) (scope : Scope (Value ν))
    (entries : List (String × Dynamic ν)) :
    WriteStatement → Except Refusal (List (String × Dynamic ν))
  | .declare => .ok []
  | .put key value => do return SchemaStructs.put (cString key) (← value.eval call scope) entries
  | .putIf holder key value =>
    match scope.value? holder with
    | some .nothing => .ok entries
    | some (.just _) => do
      return SchemaStructs.put (cString key) (← value.eval call scope) entries
    | _ => .error .undefined

@[simp] theorem WriteStatement.eval_declare (call : Value ν → Except Refusal (Dynamic ν))
    (scope : Scope (Value ν)) (entries : List (String × Dynamic ν)) :
    declare.eval call scope entries = .ok [] := rfl

namespace CppStruct

def read (call : String → Dynamic ν → Except Refusal (Value ν)) (s : CppStruct) (d : Dynamic ν) :
    Except Refusal (Value ν) := do
  return .object s.name (← s.reading.foldlM (ReadStatement.eval call s d) [])

def scope (members : List (String × Value ν)) : Scope (Value ν)
  | .member ident => members.lookup ident
  | _ => none

def write (call : Value ν → Except Refusal (Dynamic ν)) (s : CppStruct)
    (members : List (String × Value ν)) : Except Refusal (Dynamic ν) := do
  return .object (← s.writing.foldlM (WriteStatement.eval call (scope members)) [])

end CppStruct

section

variable {α β : Type}

/-- A recursion that is cut off below a depth. -/
def within (step : (α → Except Refusal β) → α → Except Refusal β) : Nat → α → Except Refusal β
  | 0, _ => .error .undefined
  | depth + 1, a => step (within step depth) a

variable {step : (α → Except Refusal β) → α → Except Refusal β}

theorem within_eq {rank : α → Nat}
    (hstep : ∀ f g a, (∀ b, rank b < rank a → f b = g b) → step f a = step g a) (m n : Nat) (a : α)
    (hm : rank a < m) (hn : rank a < n) : within step m a = within step n a := by
  induction m generalizing n a with
  | zero => exact absurd hm (Nat.not_lt_zero _)
  | succ m ih =>
    cases n with
    | zero => exact absurd hn (Nat.not_lt_zero _)
    | succ n =>
      exact hstep _ _ a fun b hb =>
        ih n b (Nat.lt_of_lt_of_le hb (Nat.le_of_lt_succ hm))
          (Nat.lt_of_lt_of_le hb (Nat.le_of_lt_succ hn))

theorem within_fix (rank : α → Nat)
    (hstep : ∀ f g a, (∀ b, rank b < rank a → f b = g b) → step f a = step g a) (a : α) :
    within step (rank a + 1) a = step (fun b => within step (rank b + 1) b) a :=
  hstep _ _ a fun b hb => within_eq hstep _ _ b hb (Nat.lt_succ_self _)

end

def readCall (program : List CppStruct) (call : String × Dynamic ν → Except Refusal (Value ν)) :
    String × Dynamic ν → Except Refusal (Value ν)
  | (name, d) =>
    match program.find? (·.name == name) with
    | some s => s.read (fun n e => call (n, e)) d
    | none => .error .undefined

def writeCall (program : List CppStruct) (call : Value ν → Except Refusal (Dynamic ν)) :
    Value ν → Except Refusal (Dynamic ν)
  | .object name members =>
    match program.find? (·.name == name) with
    | some s => s.write call members
    | none => .error .undefined
  | _ => .error .undefined

def fromDynamic (program : List CppStruct) (name : String) (d : Dynamic ν) :
    Except Refusal (Value ν) := within (readCall program) (d.depth + 1) (name, d)

def toDynamic (program : List CppStruct) (v : Value ν) : Except Refusal (Dynamic ν) :=
  within (writeCall program) (v.depth + 1) v

end SchemaStructs
