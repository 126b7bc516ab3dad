import SchemaStructs.Json.Token
import SchemaStructs.Json.Value
import SchemaStructs.Text.Numeral
import SchemaStructs.Text.Utf8

set_option autoImplicit false

namespace SchemaStructs.Json

/-- The entries of an object that is still open, last first. A key need not be a text. -/
abbrev Pairs := List (Option String × Json)

/-- An open container with the parts it has so far, last first; an object also holds the key
whose value is being read. -/
inductive Frame where
  | array (done : List Json)
  | object (done : Pairs) (key : Option String)

inductive Want where
  | value
  | firstItem
  | key (done : Pairs)
  | firstKey
  | colon (done : Pairs) (key : Option String)
  /-- A value is complete; the container that holds it goes on or ends. -/
  | after (v : Json)

def ofNumber (text : String) : Json :=
  if (Numeral.ofText text.toList).isFiniteProduct then .number text else .unreadable

def ofString : Option String → Json
  | some s => .string s
  | none => .unreadable

def ofPairs (done : Pairs) : Json :=
  match done.mapM fun (k, v) => k.map (·, v) with
  | some entries => .object entries.reverse
  | none => .unreadable

def step : List Frame → Want → Token → Option (List Frame × Want)
  | fs, .value, t => opening fs t
  | fs, .firstItem, t =>
    match t, fs with
    | .closeArray, .array _ :: fs => some (fs, .after (.array []))
    | t, fs => opening fs t
  | fs, .key done, .string k => some (fs, .colon done k)
  | fs, .firstKey, .string k => some (fs, .colon [] k)
  | fs, .firstKey, .closeObject => some (fs, .after (.object []))
  | fs, .colon done k, .colon => some (.object done k :: fs, .value)
  | .array done :: fs, .after v, .comma => some (.array (v :: done) :: fs, .value)
  | .array done :: fs, .after v, .closeArray => some (fs, .after (.array (v :: done).reverse))
  | .object done k :: fs, .after v, .comma => some (fs, .key ((k, v) :: done))
  | .object done k :: fs, .after v, .closeObject => some (fs, .after (ofPairs ((k, v) :: done)))
  | _, _, _ => none
where
  opening (fs : List Frame) : Token → Option (List Frame × Want)
    | .null => some (fs, .after .null)
    | .bool b => some (fs, .after (.bool b))
    | .number n => some (fs, .after (ofNumber n))
    | .string s => some (fs, .after (ofString s))
    | .openArray => some (.array [] :: fs, .firstItem)
    | .openObject => some (fs, .firstKey)
    | _ => none

def assemble : List Frame → Want → List Token → Option Json
  | [], .after v, [] => some v
  | _, _, [] => none
  | fs, w, t :: ts =>
    match step fs w t with
    | none => none
    | some (fs, w) => assemble fs w ts

def ofChars? (cs : List (Option Char)) : Option Json := do assemble [] .value (← Token.scan cs)

def parse? (text : String) : Option Json := ofChars? (text.toList.map some)

def parseBytes? (bytes : ByteArray) : Option Json := ofChars? (Utf8.chars bytes)

end SchemaStructs.Json
