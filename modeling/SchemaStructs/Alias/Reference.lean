import SchemaStructs.Schema.Type

set_option autoImplicit false

namespace SchemaStructs

structure Reference where
  target : String
  /-- Labels of the layers around the name, outermost first. -/
  steps : List String
  crossesProperty : Bool
  /-- An array, a null or an absent property can end the recursion here. -/
  guarded : Bool
  deriving DecidableEq, Repr

namespace Reference

def unguarded (r : Reference) : Bool := !r.guarded

def outsideObjects (r : Reference) : Bool := !r.crossesProperty

def underArray (r : Reference) : Reference := { r with steps := "[]" :: r.steps, guarded := true }

def underNullable (r : Reference) : Reference := { r with steps := "?" :: r.steps, guarded := true }

def underProperty (name : String) (optional : Bool) (r : Reference) : Reference :=
  { r with
    steps := name :: r.steps
    crossesProperty := true
    guarded := optional || r.guarded }

end Reference

mutual

def SchemaType.references : SchemaType → List Reference
  | .scalar _ | .generic | .enum _ => []
  | .array element => element.references.map Reference.underArray
  | .nullable inner => inner.references.map Reference.underNullable
  | .object properties => Property.references properties
  | .named name => [⟨name, [], false, false⟩]

def Property.references : List Property → List Reference
  | [] => []
  | ⟨name, type, optional⟩ :: ps =>
    type.references.map (Reference.underProperty name optional) ++ Property.references ps

end

end SchemaStructs
