import SchemaStructs.Json.Value

/-!
Records. A record with named fields is written as an object, or as the array of its fields in
order; an array may leave out trailing fields, and an object may hold keys that no field has.
-/

set_option autoImplicit false

namespace SchemaStructs.Json

inductive Container (α : Type) where
  | items (parts : List α)
  | entries (parts : List (String × α))

namespace Container

variable {α : Type}

def unique? (name : String) (entries : List (String × α)) : Option (Option α) :=
  match entries.filter (·.1 == name) with
  | [] => some none
  | [e] => some (some e.2)
  | _ => none

def fields (names : List String) : Container α → Option (List (Option α))
  | .items parts =>
    if parts.length ≤ names.length then
      some (parts.map some ++ List.replicate (names.length - parts.length) none)
    else none
  | .entries parts => names.mapM (unique? · parts)

/-- The field `name` comes first; the rest of the record stands beside it. -/
def uncons (name : String) : Container α → Option (α × Container α)
  | .items [] => none
  | .items (p :: ps) => some (p, .items ps)
  | .entries parts => do
    let p ← (← unique? name parts)
    return (p, .entries (parts.filter (·.1 != name)))

end Container

def container? : Json → Option (Container Json)
  | .array items => some (.items items)
  | .object entries => some (.entries entries)
  | _ => none

abbrev FieldReader := List String → Json → Option (List (Option Json))

def fields? : FieldReader := fun names j => do (← j.container?).fields names

/-- A field with a default: what stands there has to be readable. -/
def orDefault {α β : Type} (default : β) (read : α → Option β) : Option α → Option β
  | none => some default
  | some v => read v

end SchemaStructs.Json
