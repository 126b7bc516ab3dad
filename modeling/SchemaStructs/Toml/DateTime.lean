import SchemaStructs.Text.Digit

set_option autoImplicit false

namespace SchemaStructs.Toml

def isLeap (year : Nat) : Bool := year % 4 == 0 && (year % 100 != 0 || year % 400 == 0)

def daysIn (year month : Nat) : Nat :=
  if month == 2 then if isLeap year then 29 else 28
  else if month == 4 || month == 6 || month == 9 || month == 11 then 30
  else 31

def isDate : List Char → Bool
  | [y₁, y₂, y₃, y₄, '-', m₁, m₂, '-', d₁, d₂] =>
    match Digit.number? 10 [y₁, y₂, y₃, y₄], Digit.number? 10 [m₁, m₂],
      Digit.number? 10 [d₁, d₂] with
    | some y, some m, some d => 1 ≤ m && m ≤ 12 && 1 ≤ d && d ≤ daysIn y m
    | _, _, _ => false
  | _ => false

def isBelow (limit : Nat) (a b : Char) : Bool :=
  match Digit.number? 10 [a, b] with
  | some n => n < limit
  | none => false

/-- What may follow the minutes of a time: seconds, and a fraction of them. -/
def isSeconds : List Char → Bool
  | [] => true
  | ':' :: a :: b :: cs =>
    isBelow 61 a b &&
      match cs with
      | [] => true
      | '.' :: ds => !ds.isEmpty && ds.all Char.isDigit
      | _ => false
  | _ => false

def isTime : List Char → Bool
  | h₁ :: h₂ :: ':' :: m₁ :: m₂ :: cs => isBelow 24 h₁ h₂ && isBelow 60 m₁ m₂ && isSeconds cs
  | _ => false

def isOffset : List Char → Bool
  | [] => true
  | [z] => z == 'Z' || z == 'z'
  | [sign, h₁, h₂, ':', m₁, m₂] =>
    (sign == '+' || sign == '-') && isBelow 24 h₁ h₂ && isBelow 60 m₁ m₂
  | _ => false

def isTimeChar (c : Char) : Bool := c.isDigit || c == ':' || c == '.'

def isDateTime (cs : List Char) : Bool :=
  isDate (cs.take 10) &&
    match cs.drop 10 with
    | [] => true
    | sep :: cs =>
      (sep == 'T' || sep == 't' || sep == ' ') && isTime (cs.takeWhile isTimeChar) &&
        isOffset (cs.dropWhile isTimeChar)

end SchemaStructs.Toml
