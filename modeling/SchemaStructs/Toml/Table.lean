import SchemaStructs.Json.Value

/-!
TOML tables while a document is being read. How a table came about decides what may be added:
nothing is defined twice, and what dotted keys have made only dotted keys may fill.
-/

set_option autoImplicit false

namespace SchemaStructs.Toml

inductive Origin where
  /-- Named on the way to a table with a header. -/
  | implied
  | header
  | dotted
  deriving DecidableEq

inductive Node where
  | value (v : Json)
  | table (origin : Origin) (entries : List (String × Node))
  /-- Tables under headers of one name; the last is being filled. -/
  | tables (all : List (List (String × Node)))

abbrev Entries := List (String × Node)

mutual

def Node.toJson : Node → Json
  | .value v => v
  | .table _ entries => .object (Node.entriesToJson entries)
  | .tables all => .array (Node.tablesToJson all)

def Node.entriesToJson : List (String × Node) → List (String × Json)
  | [] => []
  | (k, n) :: es => (k, n.toJson) :: Node.entriesToJson es

def Node.tablesToJson : List (List (String × Node)) → List Json
  | [] => []
  | es :: all => .object (Node.entriesToJson es) :: Node.tablesToJson all

end

namespace Entries

/-- Binds a key anew, in its place if it has one. -/
def put (key : String) (node : Node) : Entries → Entries
  | [] => [(key, node)]
  | e :: es => if e.1 == key then (key, node) :: es else e :: put key node es

def changeLast (change : Entries → Option Entries) (all : List Entries) :
    Option (List Entries) := do
  let last ← all.getLast?
  return all.dropLast ++ [← change last]

/-- Changes the table that a header names, on the way to it implying tables where there are none
if `imply` is set. -/
def within (imply : Bool) (change : Entries → Option Entries) :
    List String → Entries → Option Entries
  | [], es => change es
  | k :: ks, es => do
    let node ← match es.lookup k with
      | some (.table origin inner) => (within imply change ks inner).map (.table origin)
      | some (.tables all) => (changeLast (within imply change ks) all).map .tables
      | some (.value _) => none
      | none => if imply then (within imply change ks []).map (.table .implied) else none
    return put k node es

def openTable (key : String) (es : Entries) : Option Entries :=
  match es.lookup key with
  | none => some (put key (.table .header []) es)
  | some (.table .implied inner) => some (put key (.table .header inner) es)
  | _ => none

def openNext (key : String) (es : Entries) : Option Entries :=
  match es.lookup key with
  | none => some (put key (.tables [[]]) es)
  | some (.tables all) => some (put key (.tables (all ++ [[]])) es)
  | _ => none

/-- Binds a dotted key. What headers have made it may pass through, but not add to. -/
def assign (v : Json) : List String → Entries → Option Entries
  | [], _ => none
  | [k], es => if (es.lookup k).isNone then some (put k (.value v) es) else none
  | k :: k' :: ks, es =>
    match es.lookup k with
    | none => (assign v (k' :: ks) []).map fun inner => put k (.table .dotted inner) es
    | some (.table .dotted inner) =>
      (assign v (k' :: ks) inner).map fun inner => put k (.table .dotted inner) es
    | some (.table .implied inner) =>
      if ks.isEmpty then none
      else (assign v (k' :: ks) inner).map fun inner => put k (.table .implied inner) es
    | some (.tables all) =>
      if ks.isEmpty then none
      else (changeLast (assign v (k' :: ks)) all).map fun all => put k (.tables all) es
    | _ => none

end Entries

end SchemaStructs.Toml
