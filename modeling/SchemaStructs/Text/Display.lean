import SchemaStructs.Text.Digit

set_option autoImplicit false

namespace SchemaStructs.Display

def hex (n : Nat) : List Char :=
  if _h : n < 16 then [Digit.ofNat n] else hex (n / 16) ++ [Digit.ofNat (n % 16)]
termination_by n

def codePoint (c : Char) : List Char := ['\\', 'u', '\x7b'] ++ hex c.toNat ++ ['\x7d']

/-- The character after a backslash that stands for a quote, a backslash or a blank. -/
def backslashed? : Char → Option Char
  | '\t' => some 't'
  | '\r' => some 'r'
  | '\n' => some 'n'
  | '\'' => some '\''
  | '"' => some '"'
  | '\\' => some '\\'
  | _ => none

def isPrintableAscii (c : Char) : Bool := 0x20 ≤ c.toNat && c.toNat < 0x7F

def asciiChar (c : Char) : List Char :=
  match backslashed? c with
  | some d => ['\\', d]
  | none => if isPrintableAscii c then [c] else codePoint c

/-- Printable ASCII only; all other characters by their code points. -/
def ascii (s : String) : String := String.ofList (s.toList.flatMap asciiChar)

/-- A single quote needs nothing before it, as a path stands between double quotes. -/
def pathChar (c : Char) : List Char :=
  if c = '\'' then [c]
  else
    match backslashed? c with
    | some d => ['\\', d]
    | none =>
      if c.toNat = 0 then ['\\', '0']
      else if isPrintableAscii c || 0x7F < c.toNat then [c]
      else codePoint c

def path (s : String) : String := String.ofList ('"' :: s.toList.flatMap pathChar ++ ['"'])

end SchemaStructs.Display
