set_option autoImplicit false

namespace SchemaStructs.Digit

def value? (c : Char) : Option Nat :=
  if c.isDigit then some (c.toNat - 48)
  else if 'a' ≤ c ∧ c ≤ 'f' then some (c.toNat - 87)
  else if 'A' ≤ c ∧ c ≤ 'F' then some (c.toNat - 55)
  else none

def ofNat (n : Nat) : Char := if n < 10 then Char.ofNat (n + 48) else Char.ofNat (n + 87)

def isIn (base : Nat) (c : Char) : Bool := (value? c).any (· < base)

def number (base : Nat) (digits : List Nat) : Nat := digits.foldl (fun n d => n * base + d) 0

def number? (base : Nat) (cs : List Char) : Option Nat := do
  if cs.all (isIn base) then return number base (← cs.mapM value?) else none

end SchemaStructs.Digit
