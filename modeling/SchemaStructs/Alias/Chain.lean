import SchemaStructs.Alias.Unseen
import SchemaStructs.Error
import SchemaStructs.Schema.Type

set_option autoImplicit false

namespace SchemaStructs

def resolve (aliases : Aliases) (name : String) : Except HeaderError SchemaType :=
  match aliases.lookup name with
  | some type => .ok type
  | none => .error (.unknownAlias name)

structure Chain where
  names : List String
  type : SchemaType

def Chain.defining? (c : Chain) : Option String := c.names.getLast?

def followFrom (aliases : Aliases) (passed : List String) (type : SchemaType) :
    Except HeaderError Chain :=
  match type with
  | .named name =>
    if _h : name ∈ passed then .error (.recursiveAlias name (passed ++ [name]))
    else
      match _hget : aliases.lookup name with
      | some body => followFrom aliases (passed ++ [name]) body
      | none => .error (.unknownAlias name)
  | type => .ok ⟨passed, type⟩
termination_by unseen (fun _ => 1) passed aliases
decreasing_by
  have := unseen_add_le (fun _ => 1) passed (passed ++ [name]) _h (by simp)
    (fun n hn => by simp [hn]) _hget
  omega

/-- Follows names until a type is no name; a loop of names is an error. -/
def follow (aliases : Aliases) (type : SchemaType) : Except HeaderError Chain :=
  followFrom aliases [] type

end SchemaStructs
