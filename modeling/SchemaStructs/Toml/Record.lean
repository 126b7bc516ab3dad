import SchemaStructs.Json.Record
import SchemaStructs.Json.Sound

set_option autoImplicit false

namespace SchemaStructs.Toml

open Json (Container FieldReader)

/-- The fields of a record. Nothing looks at the items of an array beyond the fields; but a table
has to be sound under other keys too. -/
def fields? : FieldReader := fun names j =>
  match j with
  | .array items => (Container.items (items.take names.length)).fields names
  | .object entries =>
    if (entries.filter (!names.contains ·.1)).all (·.2.isSound) then
      (Container.entries entries).fields names
    else none
  | _ => none

end SchemaStructs.Toml
