import SchemaStructs.Alias.Representable
import SchemaStructs.Struct.Lowering
import SchemaStructs.Struct.Merge

set_option autoImplicit false

namespace SchemaStructs

/-- All types are checked before any is lowered. -/
def collectWithin (within : Aliases → Nat) (moduleName : String) (aliases : Aliases)
    (methods : List Method) : Except (Halt HeaderError) (List Struct) := do
  let slots := methods.flatMap Method.slots
  let graphs ← Except.mapError Halt.failed (slots.mapM (·.type.represent aliases))
  let ((), collected) ←
    ((lowerSlots moduleName within 0 (slots.zip graphs)).run {}).mapError Halted.why
  return mergeEquivalent collected.structs

def collect (moduleName : String) (aliases : Aliases) (methods : List Method) :
    Except (Halt HeaderError) (List Struct) :=
  collectWithin budget moduleName aliases methods

end SchemaStructs
