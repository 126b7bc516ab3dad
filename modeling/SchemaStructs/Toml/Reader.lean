import SchemaStructs.Toml.Scalar
import SchemaStructs.Toml.Table
import SchemaStructs.Toml.Text

set_option autoImplicit false

namespace SchemaStructs.Toml

def items? (value : List Char → Option (Json × List Char)) (seen : List Json) :
    Nat → List Char → Option (Json × List Char)
  | 0, _ => none
  | limit + 1, cs => do
    match ← skipLines false cs with
    | ']' :: cs => return (.array seen.reverse, cs)
    | cs => do
      let (v, cs) ← value cs
      match ← skipLines false cs with
      | ',' :: cs => items? value (v :: seen) limit cs
      | ']' :: cs => return (.array (v :: seen).reverse, cs)
      | _ => none

/-- A key, an equals sign and a value; `skip` passes over what may stand beside the sign. -/
def binding? (skip : List Char → Option (List Char))
    (value : List Char → Option (Json × List Char)) (cs : List Char) :
    Option (List String × Json × List Char) := do
  let (path, cs) ← keyPath? cs
  match ← skip cs with
  | '=' :: cs => do
    let (v, cs) ← value (← skip cs)
    return (path, v, cs)
  | _ => none

def inlineTable? (value : List Char → Option (Json × List Char)) (entries : Entries) :
    Nat → List Char → Option (Json × List Char)
  | 0, _ => none
  | limit + 1, cs => do
    match ← skipLines false cs with
    | '\x7d' :: cs => return (.object (Node.entriesToJson entries), cs)
    | cs => do
      let (path, v, cs) ← binding? (skipLines false) value cs
      let entries ← Entries.assign v path entries
      match ← skipLines false cs with
      | ',' :: cs => inlineTable? value entries limit cs
      | '\x7d' :: cs => return (.object (Node.entriesToJson entries), cs)
      | _ => none

def value? (depth : Nat) (cs : List Char) : Option (Json × List Char) :=
  match cs with
  | '[' :: rest =>
    match depth with
    | 0 => none
    | depth + 1 => items? (value? depth) [] (rest.length + 1) rest
  | '\x7b' :: rest =>
    match depth with
    | 0 => none
    | depth + 1 => inlineTable? (value? depth) [] (rest.length + 1) rest
  | '"' :: _ | '\'' :: _ => (string? cs).map fun (s, rest) => (.string s, rest)
  | _ => scalar? cs
termination_by structural depth

def maxDepth : Nat := 80

/-- The lines of a document; `here` names the table that the next entries belong to, and `limit`
bounds the number of lines. -/
def document? (here : List String) (entries : Entries) : Nat → List Char → Option Entries
  | 0, _ => none
  | limit + 1, cs => do
    match ← skipLines false cs with
    | [] => return entries
    | '[' :: '[' :: cs => do
      let (path, cs) ← keyPath? cs
      match cs with
      | ']' :: ']' :: cs => do
        let change := Entries.openNext (← path.getLast?)
        let entries ← Entries.within true change path.dropLast entries
        document? path entries limit (← endLine false cs)
      | _ => none
    | '[' :: cs => do
      let (path, cs) ← keyPath? cs
      match cs with
      | ']' :: cs => do
        let change := Entries.openTable (← path.getLast?)
        let entries ← Entries.within true change path.dropLast entries
        document? path entries limit (← endLine false cs)
      | _ => none
    | cs => do
      let (path, v, cs) ← binding? (some ∘ skipBlanks) (value? maxDepth) cs
      let entries ← Entries.within false (Entries.assign v path) here entries
      document? here entries limit (← endLine false cs)

/-- A mark at the very start that tells the byte order is passed over. -/
def dropMark : List Char → List Char
  | '\uFEFF' :: cs => cs
  | cs => cs

def parse? (text : String) : Option Json := do
  let cs := dropMark text.toList
  let entries ← document? [] [] (cs.length + 1) cs
  return .object (Node.entriesToJson entries)

end SchemaStructs.Toml
