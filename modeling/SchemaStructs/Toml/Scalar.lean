import SchemaStructs.Json.Value
import SchemaStructs.Toml.DateTime
import SchemaStructs.Toml.Number
import SchemaStructs.Toml.Text

set_option autoImplicit false

namespace SchemaStructs.Toml

def isDelimiter (c : Char) : Bool :=
  ['=', ',', '[', ']', '\x7b', '\x7d', '#', '\r', '\n'].contains c

def startsWord (cs : List Char) : Bool :=
  cs.head?.any fun c => !isDelimiter c && c != '"' && c != '\''

def takeWords : List Char → List Char
  | [] => []
  | c :: cs =>
    if isDelimiter c || (isBlank c && !startsWord (skipBlanks cs)) then [] else c :: takeWords cs

def dateTime (cs : List Char) : Json := .object [("datetime", .string (String.ofList cs))]

/-- The value of a text. A date or time is an object with one entry. -/
def ofText? (cs : List Char) : Option Json :=
  if cs == "true".toList then some (.bool true)
  else if cs == "false".toList then some (.bool false)
  else if isDateTime cs || isTime cs then some (dateTime cs)
  else (isReadable? cs).map fun b => if b then .number (String.ofList cs) else .unreadable

def scalar? (cs : List Char) : Option (Json × List Char) :=
  let text := takeWords cs
  (ofText? text).map (·, cs.drop text.length)

end SchemaStructs.Toml
