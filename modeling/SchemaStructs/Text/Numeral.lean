import SchemaStructs.Text.Digit

set_option autoImplicit false

namespace SchemaStructs

/-- The digits before and after the point, and the power of ten. The sign is left out. -/
structure Numeral where
  whole : List Nat
  fraction : List Nat
  power : Int
  deriving DecidableEq, Repr

namespace Numeral

def leadingDigits (cs : List Char) : List Nat :=
  (cs.takeWhile Char.isDigit).map fun c => c.toNat - 48

def powerOf : List Char → Int
  | _ :: '-' :: cs => -Digit.number 10 (leadingDigits cs)
  | _ :: '+' :: cs => Digit.number 10 (leadingDigits cs)
  | _ :: cs => Digit.number 10 (leadingDigits cs)
  | [] => 0

def ofUnsigned (cs : List Char) : Numeral :=
  match cs.dropWhile Char.isDigit with
  | '.' :: rest => ⟨leadingDigits cs, leadingDigits rest, powerOf (rest.dropWhile Char.isDigit)⟩
  | rest => ⟨leadingDigits cs, [], powerOf rest⟩

def ofText : List Char → Numeral
  | '+' :: cs => ofUnsigned cs
  | '-' :: cs => ofUnsigned cs
  | cs => ofUnsigned cs

/-- The least number that rounds to infinity: half a step above the largest finite one. -/
def infinityBound : Nat := Nat.pow 2 1024 - Nat.pow 2 970

/-- No number in question has a greater power of ten below the bound. -/
def maxPower : Int := 309

/-- The number rounds to a finite one. Powers of ten are cut where they decide nothing. -/
def isFinite (n : Numeral) : Bool :=
  let digits := n.whole ++ n.fraction
  let power := n.power - n.fraction.length
  Digit.number 10 digits * Nat.pow 10 (min power maxPower).toNat <
    infinityBound * Nat.pow 10 (min (-power) digits.length).toNat

/-- Takes first digits for as long as the number fits 64 bits; the others are left. -/
def fit (n : Nat) : List Nat → Nat × List Nat
  | [] => (n, [])
  | d :: ds => if n * 10 + d < UInt64.size then fit (n * 10 + d) ds else (n, d :: ds)

/-- The nearest number with at most 53 binary digits before its zeros, the even one of two. -/
def round53 (n : Nat) : Nat :=
  let step := Nat.pow 2 (n.log2 + 1 - 53)
  let steps := n / step
  let rest := 2 * (n % step)
  if rest < step ∨ (rest = step ∧ steps % 2 = 0) then steps * step else (steps + 1) * step

/-- The number is finite if it is computed fast: its first digits as one number, times a power of
ten, both rounded before. Digits of the whole that are left still count as powers. -/
def isFiniteProduct (n : Numeral) : Bool :=
  let (first, wholeLeft) := fit 0 n.whole
  let (first, fractionLeft) := fit first n.fraction
  let power := n.power + wholeLeft.length + fractionLeft.length - n.fraction.length
  power < 0 || round53 first * round53 (Nat.pow 10 (min power maxPower).toNat) < infinityBound

end Numeral

end SchemaStructs
