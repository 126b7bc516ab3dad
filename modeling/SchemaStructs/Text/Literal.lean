set_option autoImplicit false

namespace SchemaStructs.Literal

def octalDigit (n : Nat) : Char := Char.ofNat (n % 8 + 48)

def octal (n : Nat) : List Char := ['\\', octalDigit (n / 64), octalDigit (n / 8), octalDigit n]

def isControl (c : Char) : Bool := c.toNat < 0x20 || c.toNat == 0x7F

def escape (c : Char) : List Char :=
  if c = '"' then ['\\', '"']
  else if c = '\\' then ['\\', '\\']
  else if c = '\n' then ['\\', 'n']
  else if c = '\r' then ['\\', 'r']
  else if c = '\t' then ['\\', 't']
  else if isControl c then octal c.toNat
  else [c]

def body (s : List Char) : List Char := s.flatMap escape

def quote (s : String) : String := String.ofList ('"' :: body s.toList ++ ['"'])

end SchemaStructs.Literal
