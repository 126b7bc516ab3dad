import SchemaStructs.Json.Value

set_option autoImplicit false

namespace SchemaStructs.Json

mutual

def isSound : Json → Bool
  | .null | .bool _ | .number _ | .string _ => true
  | .array items => areSound items
  | .object entries => areSoundEntries entries
  | .unreadable => false

def areSound : List Json → Bool
  | [] => true
  | j :: js => j.isSound && areSound js

def areSoundEntries : List (String × Json) → Bool
  | [] => true
  | (_, v) :: es => v.isSound && areSoundEntries es

end

mutual

/-- The value as it can be read with at most `depth` containers around any part of it. -/
def within : Nat → Json → Json
  | 0, .array _ | 0, .object _ => .unreadable
  | depth + 1, .array items => .array (allWithin depth items)
  | depth + 1, .object entries => .object (entriesWithin depth entries)
  | _, .null => .null
  | _, .bool b => .bool b
  | _, .number n => .number n
  | _, .string s => .string s
  | _, .unreadable => .unreadable

def allWithin : Nat → List Json → List Json
  | _, [] => []
  | depth, j :: js => j.within depth :: allWithin depth js

def entriesWithin : Nat → List (String × Json) → List (String × Json)
  | _, [] => []
  | depth, (k, v) :: es => (k, v.within depth) :: entriesWithin depth es

end

end SchemaStructs.Json
