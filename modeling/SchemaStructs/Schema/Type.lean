import SchemaStructs.Member

set_option autoImplicit false

namespace SchemaStructs

inductive Scalar where
  | bool
  | number
  | string
  /-- No value at all, for the result of a method. -/
  | void
  deriving DecidableEq, Repr

inductive SchemaType where
  | scalar (kind : Scalar)
  | array (element : SchemaType)
  | object (properties : List (Member SchemaType))
  /-- A reference to an alias. -/
  | named (name : String)
  /-- Any object, passed on as it is. -/
  | generic
  /-- A value that may be null. -/
  | nullable (inner : SchemaType)
  /-- One of the listed texts. -/
  | enum (members : List String)
  deriving Repr

abbrev Property := Member SchemaType

abbrev Aliases := List (String × SchemaType)

def SchemaType.isVoid : SchemaType → Bool
  | .scalar .void => true
  | _ => false

end SchemaStructs
