import SchemaStructs.Struct.Basic

set_option autoImplicit false

namespace SchemaStructs

inductive CppType where
  | bool
  | number
  | string
  /-- A text that is checked against the members when it is read. -/
  | enum (members : List String)
  | dynamic
  | struct (name : String)
  /-- A struct behind a shared pointer. -/
  | shared (name : String)
  | vector (element : CppType)
  | optional (inner : CppType)
  deriving DecidableEq, Repr

namespace CppType

def spelling : CppType → String
  | .bool => "bool"
  | .number => "double"
  | .string | .enum _ => "std::string"
  | .dynamic => "folly::dynamic"
  | .struct name => name
  | .shared name => "std::shared_ptr<" ++ name ++ ">"
  | .vector element => "std::vector<" ++ element.spelling ++ ">"
  | .optional inner => "std::optional<" ++ inner.spelling ++ ">"

/-- The type of a field's value. A struct that is not complete where the member is declared is
held by pointer, unless it is the element of a vector, which may be incomplete. -/
def ofFieldType (isComplete : String → Bool) (inVector : Bool) : FieldType String → CppType
  | .bool => .bool
  | .number => .number
  | .string => .string
  | .generic => .dynamic
  | .enum members => .enum members
  | .array element => .vector (ofFieldType isComplete true element)
  | .nullable inner => .optional (ofFieldType isComplete false inner)
  | .struct name => if inVector || isComplete name then .struct name else .shared name

/-- The type of a member. An absent key is told from a null by an optional of its own. -/
def ofField (isComplete : String → Bool) (f : Field) : CppType :=
  let type := ofFieldType isComplete false f.type
  if f.optional then .optional type else type

def needsInitializer : CppType → Bool
  | .bool | .number => true
  | _ => false

end CppType

end SchemaStructs
