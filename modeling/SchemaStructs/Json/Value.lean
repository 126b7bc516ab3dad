/-!
JSON values. An object keeps its entries as they came, in order and with repeated keys, and a
number keeps its text. A value can be well written and yet not be readable; it can only be passed
over.
-/

set_option autoImplicit false

namespace SchemaStructs

inductive Json where
  | null
  | bool (value : Bool)
  | number (text : String)
  | string (text : String)
  | array (items : List Json)
  | object (entries : List (String × Json))
  /-- A string that holds no text, an object with such a key, or a number out of range. -/
  | unreadable
  deriving Repr

namespace Json

def text? : Json → Option String
  | .string s => some s
  | _ => none

def bool? : Json → Option Bool
  | .bool b => some b
  | _ => none

def items? : Json → Option (List Json)
  | .array items => some items
  | _ => none

def entries? : Json → Option (List (String × Json))
  | .object entries => some entries
  | _ => none

def texts? (j : Json) : Option (List String) := do (← j.items?).mapM text?

def ofTexts (names : List String) : Json := .array (names.map .string)

end Json

end SchemaStructs
