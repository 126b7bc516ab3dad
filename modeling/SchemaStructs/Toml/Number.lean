import SchemaStructs.Text.Numeral

/-!
TOML numbers. Whether a text is a number at all and whether the number can be read are two
questions: the second is put only to those numbers that somebody asks for.
-/

set_option autoImplicit false

namespace SchemaStructs.Toml

/-- Digits, at least one, and underscores only between two of them. -/
def isDigits (isDigit : Char → Bool) : List Char → Bool
  | [] => false
  | [c] => isDigit c
  | c :: '_' :: cs => isDigit c && isDigits isDigit cs
  | c :: cs => isDigit c && isDigits isDigit cs

def dropSign : List Char → List Char
  | '+' :: cs => cs
  | '-' :: cs => cs
  | cs => cs

def isDecimal : List Char → Bool
  | ['0'] => true
  | '0' :: _ => false
  | cs => isDigits Char.isDigit cs

/-- A decimal number, with or without a sign. An underscore may stand right behind the sign, and
then zeros may lead. -/
def isWhole : List Char → Bool
  | '+' :: '_' :: cs => isDigits Char.isDigit cs
  | '-' :: '_' :: cs => isDigits Char.isDigit cs
  | cs => isDecimal (dropSign cs)

def dropUnderscores (cs : List Char) : List Char := cs.filter (· != '_')

def startsDigit (cs : List Char) : Bool := cs.head?.any (Digit.isIn 16)

/-- Every underscore but one at the start has a digit on both sides, in base 16 if need be. -/
def bindsDigits : List Char → Bool
  | c :: '_' :: cs => Digit.isIn 16 c && startsDigit cs && bindsDigits cs
  | _ :: cs => bindsDigits cs
  | [] => true

def isPower (c : Char) : Bool := c == 'e' || c == 'E'

def isPoint (c : Char) : Bool := c == '.' || isPower c

/-- Behind its first underscore a number may hold almost anything, but only digits can be read. -/
def isLoose (cs : List Char) : Bool :=
  let unsigned := dropSign cs
  cs.head? != some '_' && unsigned.head? != some '0' &&
    match unsigned.dropWhile Char.isDigit with
    | '_' :: rest =>
      startsDigit rest && bindsDigits rest && !rest.any fun c => isPoint c || c == ' '
    | _ => false

/-- In the bases 16, 8 and 2 there may be no digit at all, and then nothing can be read. -/
def isInteger : List Char → Bool
  | '0' :: 'x' :: cs => cs.isEmpty || isDigits (Digit.isIn 16) cs
  | '0' :: 'o' :: cs => cs.isEmpty || isDigits (Digit.isIn 8) cs
  | '0' :: 'b' :: cs => cs.isEmpty || isDigits (Digit.isIn 2) cs
  | cs => isWhole cs || isLoose cs

def natural? (base : Nat) (cs : List Char) : Option Int :=
  if cs.isEmpty then none else (Digit.number? base cs).map Int.ofNat

def integer? : List Char → Option Int
  | '0' :: 'x' :: cs => natural? 16 cs
  | '0' :: 'o' :: cs => natural? 8 cs
  | '0' :: 'b' :: cs => natural? 2 cs
  | '+' :: cs => natural? 10 cs
  | '-' :: cs => (natural? 10 cs).map (- ·)
  | cs => natural? 10 cs

/-- Integers have 128 bits, with a sign or without. -/
def isInRange (n : Int) : Bool := -Int.ofNat (Nat.pow 2 127) ≤ n && n < Int.ofNat (Nat.pow 2 128)

def isExponent (cs : List Char) : Bool := isDigits Char.isDigit (dropSign cs)

/-- An integer with a fraction, an exponent or both; or an infinity, or no number. -/
def isFloat (cs : List Char) : Bool :=
  if dropSign cs == "inf".toList || dropSign cs == "nan".toList then true
  else
    isWhole (cs.takeWhile (!isPoint ·)) &&
      match cs.dropWhile (!isPoint ·) with
      | '.' :: rest =>
        isDigits Char.isDigit (rest.takeWhile (!isPower ·)) &&
          match rest.dropWhile (!isPower ·) with
          | [] => true
          | _ :: power => isExponent power
      | _ :: power => isExponent power
      | [] => false

def isReadable? (cs : List Char) : Option Bool :=
  if isFloat cs then some (Numeral.ofText (dropUnderscores cs)).isFinite
  else if isInteger cs then some ((integer? (dropUnderscores cs)).any isInRange)
  else none

end SchemaStructs.Toml
