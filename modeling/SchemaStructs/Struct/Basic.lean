import SchemaStructs.Member

set_option autoImplicit false

namespace SchemaStructs

inductive FieldType (ρ : Type) where
  | bool
  | number
  | string
  /-- Any value, passed on as it is. -/
  | generic
  | enum (members : List String)
  | array (element : FieldType ρ)
  | nullable (inner : FieldType ρ)
  | struct (ref : ρ)
  deriving DecidableEq, Repr

namespace FieldType

variable {ρ σ : Type}

def map (f : ρ → σ) : FieldType ρ → FieldType σ
  | .bool => .bool
  | .number => .number
  | .string => .string
  | .generic => .generic
  | .enum members => .enum members
  | .array element => .array (element.map f)
  | .nullable inner => .nullable (inner.map f)
  | .struct r => .struct (f r)

/-- The struct that the type refers to; a type refers to at most one. -/
def ref? : FieldType ρ → Option ρ
  | .array element => element.ref?
  | .nullable inner => inner.ref?
  | .struct r => some r
  | _ => none

end FieldType

abbrev Field := Member (FieldType String)

def Field.rename (f : String → String) (field : Field) : Field := field.map (·.map f)

inductive Origin where
  /-- The object that an alias is defined as. -/
  | named (name : String)
  /-- An object within a method's type, or within an alias but not its whole definition. -/
  | path (segments : List String)
  deriving DecidableEq, Repr

structure Struct where
  name : String
  fields : List Field
  origin : Origin
  deriving DecidableEq, Repr

namespace Struct

def dependencies (s : Struct) : List String := (s.fields.filterMap (·.type.ref?)).eraseDups

def isSelfReferential (s : Struct) : Bool := s.dependencies.contains s.name

end Struct

end SchemaStructs
