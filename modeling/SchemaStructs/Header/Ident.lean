import SchemaStructs.Struct.Basic
import SchemaStructs.Struct.Naming

set_option autoImplicit false

namespace SchemaStructs.Ident

open Identifier

def avoid (isUsable : String → Bool) (ident : String) : String :=
  if isUsable ident then ident else ident ++ "_"

def ofKey (key : String) : String := avoid (!isReserved ·) (sanitize key)

def libraryNames : List String := ["std", "folly", "structgen", "fromDynamic", "toDynamic"]

def wish (structs : List String) (key : String) : String :=
  avoid (fun ident => !libraryNames.contains ident && !structs.contains ident) (ofKey key)

/-- The name itself or its first numbered form that is not used; of as many forms as there are
used names, and one more, some form is free. -/
def unused (used : List String) (ident : String) : String :=
  (Naming.firstFree? used ident (used.length + 1)).getD ident

def assign (structs used : List String) : List String → List String
  | [] => []
  | key :: keys =>
    let ident := unused used (wish structs key)
    ident :: assign structs (ident :: used) keys

end SchemaStructs.Ident
