import SchemaStructs.Text.Digit

/-!
The tokens of a JSON text. The text is read one character at a time; the reader's state says
what the characters since the last token have been. Where the text comes from bytes, some of them
may be no character.
-/

set_option autoImplicit false

namespace SchemaStructs.Json

inductive Token where
  | openArray
  | closeArray
  | openObject
  | closeObject
  | comma
  | colon
  | null
  | bool (value : Bool)
  | number (text : String)
  /-- Not every string holds a text: half a surrogate pair spoils it, and so does a byte that is
  no character. -/
  | string (text : Option String)
  deriving DecidableEq, Repr

namespace Token

def isBlank (c : Char) : Bool := c == ' ' || c == '\t' || c == '\n' || c == '\r'

def isNumberChar (c : Char) : Bool :=
  c.isDigit || c == '-' || c == '+' || c == '.' || c == 'e' || c == 'E'

def someDigits (cs : List Char) : Bool := !cs.isEmpty && cs.all Char.isDigit

def isExponent : List Char → Bool
  | [] => true
  | e :: cs =>
    (e == 'e' || e == 'E') &&
      match cs with
      | '+' :: ds => someDigits ds
      | '-' :: ds => someDigits ds
      | ds => someDigits ds

def isFraction : List Char → Bool
  | '.' :: c :: cs => c.isDigit && isExponent (cs.dropWhile Char.isDigit)
  | cs => isExponent cs

def isUnsigned : List Char → Bool
  | '0' :: cs => isFraction cs
  | c :: cs => c.isDigit && isFraction (cs.dropWhile Char.isDigit)
  | [] => false

/-- An optional minus, an integer without leading zeros, then a fraction and an exponent, each
optional. -/
def isNumber : List Char → Bool
  | '-' :: cs => isUnsigned cs
  | cs => isUnsigned cs

def ofWord : List Char → Option Token
  | ['n', 'u', 'l', 'l'] => some .null
  | ['t', 'r', 'u', 'e'] => some (.bool true)
  | ['f', 'a', 'l', 's', 'e'] => some (.bool false)
  | _ => none

def ofNumber (cs : List Char) : Option Token :=
  if isNumber cs then some (.number (String.ofList cs)) else none

/-- What stands since the last token. The characters of a string are held last first, as long as
they make a text. -/
inductive Scan where
  | between
  | word (seen : List Char)
  | number (seen : List Char)
  | text (seen : Option (List Char))
  | escape (seen : Option (List Char))
  /-- `left` more hexadecimal digits; `lead` is the first half of a surrogate pair. -/
  | hex (seen : Option (List Char)) (lead : Option Nat) (left value : Nat)
  /-- The first half of a surrogate pair wants the second at once. -/
  | pair (seen : Option (List Char)) (lead : Nat)
  | pairEscape (seen : Option (List Char)) (lead : Nat)
  deriving Repr

def simpleEscape : Char → Option Char
  | '"' => some '"'
  | '\\' => some '\\'
  | '/' => some '/'
  | 'b' => some '\x08'
  | 'f' => some '\x0c'
  | 'n' => some '\n'
  | 'r' => some '\r'
  | 't' => some '\t'
  | _ => none

def Scan.ofUnit (seen : Option (List Char)) (lead : Option Nat) (unit : Nat) : Scan :=
  let leads := 0xD800 ≤ unit ∧ unit < 0xDC00
  let trails := 0xDC00 ≤ unit ∧ unit < 0xE000
  match lead with
  | some high =>
    if trails then
      let c := Char.ofNat (0x10000 + (high - 0xD800) * 0x400 + (unit - 0xDC00))
      .text (seen.map (c :: ·))
    else .text none
  | none =>
    if leads then .pair seen unit
    else if trails then .text none
    else .text (seen.map (Char.ofNat unit :: ·))

/-- The state after a character that belongs to no earlier token, and the token it may be. -/
def Scan.start (c : Char) : Option (Scan × List Token) :=
  if isBlank c then some (.between, [])
  else if c == '"' then some (.text (some []), [])
  else if c.isDigit || c == '-' then some (.number [c], [])
  else if c.isLower then some (.word [c], [])
  else
    match c with
    | '[' => some (.between, [.openArray])
    | ']' => some (.between, [.closeArray])
    | '\x7b' => some (.between, [.openObject])
    | '\x7d' => some (.between, [.closeObject])
    | ',' => some (.between, [.comma])
    | ':' => some (.between, [.colon])
    | _ => none

def Scan.stepText (seen : Option (List Char)) (c : Char) : Option (Scan × List Token) :=
  if c == '"' then some (.between, [.string (seen.map fun cs => String.ofList cs.reverse)])
  else if c == '\\' then some (.escape seen, [])
  else if c.toNat < 0x20 then none
  else some (.text (seen.map (c :: ·)), [])

def Scan.stepEscape (seen : Option (List Char)) (c : Char) : Option (Scan × List Token) :=
  if c == 'u' then some (.hex seen none 4 0, [])
  else (simpleEscape c).map fun d => (.text (seen.map (d :: ·)), [])

def Scan.step : Scan → Char → Option (Scan × List Token)
  | .between, c => start c
  | .word seen, c =>
    if c.isLower then some (.word (c :: seen), [])
    else do
      let t ← ofWord seen.reverse
      let (s, ts) ← start c
      return (s, t :: ts)
  | .number seen, c =>
    if isNumberChar c then some (.number (c :: seen), [])
    else do
      let t ← ofNumber seen.reverse
      let (s, ts) ← start c
      return (s, t :: ts)
  | .text seen, c => stepText seen c
  | .escape seen, c => stepEscape seen c
  | .hex seen lead left value, c => do
    let value := value * 16 + (← Digit.value? c)
    if left = 1 then return (ofUnit seen lead value, []) else
    return (.hex seen lead (left - 1) value, [])
  | .pair seen lead, c => if c == '\\' then some (.pairEscape seen lead, []) else stepText none c
  | .pairEscape seen lead, c =>
    if c == 'u' then some (.hex seen (some lead) 4 0, []) else stepEscape none c

/-- The state after a byte that is no character: it may stand in a string only. -/
def Scan.spoil : Scan → Option Scan
  | .text _ => some (.text none)
  | .pair _ _ => some (.text none)
  | _ => none

def Scan.finish : Scan → Option (List Token)
  | .between => some []
  | .word seen => (ofWord seen.reverse).map ([·])
  | .number seen => (ofNumber seen.reverse).map ([·])
  | _ => none

def scanFrom (done : List Token) : Scan → List (Option Char) → Option (List Token)
  | s, [] => s.finish.map (done.reverse ++ ·)
  | s, some c :: cs =>
    match s.step c with
    | none => none
    | some (s', ts) => scanFrom (ts.reverse ++ done) s' cs
  | s, none :: cs =>
    match s.spoil with
    | none => none
    | some s' => scanFrom done s' cs

def scan (cs : List (Option Char)) : Option (List Token) := scanFrom [] .between cs

end Token

end SchemaStructs.Json
