import SchemaStructs.Text.Digit

set_option autoImplicit false

namespace SchemaStructs.Toml

def isBlank (c : Char) : Bool := c == ' ' || c == '\t'

/-- Control characters that may stand nowhere; tabs and line ends are not among them. -/
def isForbidden (c : Char) : Bool :=
  (c.toNat < 0x20 && c != '\t' && c != '\n') || c.toNat == 0x7F

def skipBlanks (cs : List Char) : List Char := cs.dropWhile isBlank

def skipLines (inComment : Bool) : List Char → Option (List Char)
  | [] => some []
  | '\n' :: cs => skipLines false cs
  | '\r' :: '\n' :: cs => skipLines false cs
  | c :: cs =>
    if inComment then if isForbidden c then none else skipLines true cs
    else if isBlank c then skipLines false cs
    else if c == '#' then skipLines true cs
    else some (c :: cs)

def endLine (inComment : Bool) : List Char → Option (List Char)
  | [] => some []
  | '\n' :: cs => some cs
  | '\r' :: '\n' :: cs => some cs
  | c :: cs =>
    if inComment then if isForbidden c then none else endLine true cs
    else if isBlank c then endLine false cs
    else if c == '#' then endLine true cs
    else none

def ofHex? (digits : List Char) : Option Char := do
  let n ← Digit.number? 16 digits
  if n.isValidChar then some (Char.ofNat n) else none

def simpleEscape? : Char → Option Char
  | 'b' => some '\x08'
  | 't' => some '\t'
  | 'n' => some '\n'
  | 'f' => some '\x0c'
  | 'r' => some '\r'
  | 'e' => some '\x1b'
  | '"' => some '"'
  | '\\' => some '\\'
  | _ => none

def basic (seen : List Char) : List Char → Option (String × List Char)
  | '"' :: cs => some (String.ofList seen.reverse, cs)
  | '\\' :: 'x' :: a :: b :: cs => do basic ((← ofHex? [a, b]) :: seen) cs
  | '\\' :: 'u' :: a :: b :: c :: d :: cs => do basic ((← ofHex? [a, b, c, d]) :: seen) cs
  | '\\' :: 'U' :: a :: b :: c :: d :: e :: f :: g :: h :: cs => do
    basic ((← ofHex? [a, b, c, d, e, f, g, h]) :: seen) cs
  | '\\' :: c :: cs => do basic ((← simpleEscape? c) :: seen) cs
  | c :: cs => if isForbidden c || c == '\n' then none else basic (c :: seen) cs
  | [] => none

def literal (seen : List Char) : List Char → Option (String × List Char)
  | '\'' :: cs => some (String.ofList seen.reverse, cs)
  | c :: cs => if isForbidden c || c == '\n' then none else literal (c :: seen) cs
  | [] => none

/-- A backslash at the end of a line takes away the line end and all blanks after it. -/
inductive Fold where
  | none
  /-- Only blanks may come before the end of the line. -/
  | lineEnd
  | blanks
  deriving DecidableEq

def longBasic (seen : List Char) : Fold → List Char → Option (String × List Char)
  | .lineEnd, '\n' :: cs => longBasic seen .blanks cs
  | .lineEnd, '\r' :: '\n' :: cs => longBasic seen .blanks cs
  | .lineEnd, c :: cs => if isBlank c then longBasic seen .lineEnd cs else none
  | .blanks, ' ' :: cs => longBasic seen .blanks cs
  | .blanks, '\t' :: cs => longBasic seen .blanks cs
  | .blanks, '\n' :: cs => longBasic seen .blanks cs
  | .blanks, '\r' :: '\n' :: cs => longBasic seen .blanks cs
  | _, '"' :: '"' :: '"' :: '"' :: '"' :: cs =>
    some (String.ofList ('"' :: '"' :: seen).reverse, cs)
  | _, '"' :: '"' :: '"' :: '"' :: cs => some (String.ofList ('"' :: seen).reverse, cs)
  | _, '"' :: '"' :: '"' :: cs => some (String.ofList seen.reverse, cs)
  | _, '\\' :: 'x' :: a :: b :: cs => do longBasic ((← ofHex? [a, b]) :: seen) .none cs
  | _, '\\' :: 'u' :: a :: b :: c :: d :: cs => do
    longBasic ((← ofHex? [a, b, c, d]) :: seen) .none cs
  | _, '\\' :: 'U' :: a :: b :: c :: d :: e :: f :: g :: h :: cs => do
    longBasic ((← ofHex? [a, b, c, d, e, f, g, h]) :: seen) .none cs
  | _, '\\' :: '\n' :: cs => longBasic seen .blanks cs
  | _, '\\' :: '\r' :: '\n' :: cs => longBasic seen .blanks cs
  | _, '\\' :: c :: cs =>
    if isBlank c then longBasic seen .lineEnd cs
    else do longBasic ((← simpleEscape? c) :: seen) .none cs
  | _, '\r' :: '\n' :: cs => longBasic ('\n' :: '\r' :: seen) .none cs
  | _, c :: cs => if isForbidden c then none else longBasic (c :: seen) .none cs
  | _, [] => none

def longLiteral (seen : List Char) : List Char → Option (String × List Char)
  | '\'' :: '\'' :: '\'' :: '\'' :: '\'' :: cs =>
    some (String.ofList ('\'' :: '\'' :: seen).reverse, cs)
  | '\'' :: '\'' :: '\'' :: '\'' :: cs => some (String.ofList ('\'' :: seen).reverse, cs)
  | '\'' :: '\'' :: '\'' :: cs => some (String.ofList seen.reverse, cs)
  | '\r' :: '\n' :: cs => longLiteral ('\n' :: '\r' :: seen) cs
  | c :: cs => if isForbidden c then none else longLiteral (c :: seen) cs
  | [] => none

/-- A line end right behind the opening quotes does not belong to the string. -/
def dropLineEnd : List Char → List Char
  | '\n' :: cs => cs
  | '\r' :: '\n' :: cs => cs
  | cs => cs

def string? : List Char → Option (String × List Char)
  | '"' :: '"' :: '"' :: cs => longBasic [] .none (dropLineEnd cs)
  | '"' :: cs => basic [] cs
  | '\'' :: '\'' :: '\'' :: cs => longLiteral [] (dropLineEnd cs)
  | '\'' :: cs => literal [] cs
  | _ => none

def isKeyChar (c : Char) : Bool := c.isAlphanum || c == '_' || c == '-'

def key? : List Char → Option (String × List Char)
  | '"' :: cs => basic [] cs
  | '\'' :: cs => literal [] cs
  | cs =>
    let word := cs.takeWhile isKeyChar
    if word.isEmpty then none else some (String.ofList word, cs.dropWhile isKeyChar)

def maxKeyParts : Nat := 80

def keyParts? : Nat → List Char → Option (List String × List Char)
  | 0, _ => none
  | limit + 1, cs => do
    let (k, cs) ← key? (skipBlanks cs)
    match skipBlanks cs with
    | '.' :: cs => do
      let (ks, cs) ← keyParts? limit cs
      return (k :: ks, cs)
    | cs => return ([k], cs)

def keyPath? (cs : List Char) : Option (List String × List Char) := keyParts? maxKeyParts cs

end SchemaStructs.Toml
