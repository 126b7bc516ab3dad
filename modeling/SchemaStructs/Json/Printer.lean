import SchemaStructs.Json.Value
import SchemaStructs.Text.Digit

set_option autoImplicit false

namespace SchemaStructs.Json

def escape (c : Char) : List Char :=
  if c = '"' then ['\\', '"']
  else if c = '\\' then ['\\', '\\']
  else if c.toNat < 0x20 then
    ['\\', 'u', '0', '0', Digit.ofNat (c.toNat / 16), Digit.ofNat (c.toNat % 16)]
  else [c]

def quote (s : String) : String := String.ofList ('"' :: s.toList.flatMap escape ++ ['"'])

def unreadableText : String := "\"\\ud800\""

mutual

def render : Json → String
  | .null => "null"
  | .bool b => if b then "true" else "false"
  | .number n => n
  | .string s => quote s
  | .array items => "[" ++ ",".intercalate (renderItems items) ++ "]"
  | .object entries => "\x7b" ++ ",".intercalate (renderEntries entries) ++ "\x7d"
  | .unreadable => unreadableText

def renderItems : List Json → List String
  | [] => []
  | j :: js => j.render :: renderItems js

def renderEntries : List (String × Json) → List String
  | [] => []
  | (k, v) :: es => (quote k ++ ":" ++ v.render) :: renderEntries es

end

end SchemaStructs.Json
