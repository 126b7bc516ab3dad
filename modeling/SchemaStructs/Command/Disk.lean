import SchemaStructs.Command.Run

set_option autoImplicit false

namespace SchemaStructs

inductive Entry where
  | file (text : String)
  | directory
  deriving DecidableEq, Repr

/-- All files and directories below the root, each under the names that lead to it from there. -/
structure Disk where
  entries : List (List String × Entry) := []
  workingDirectory : List String := []
  deriving DecidableEq, Repr

namespace Disk

def get? (d : Disk) (names : List String) : Option Entry :=
  if names.isEmpty then some .directory else d.entries.lookup names

def put (d : Disk) (names : List String) (e : Entry) : Disk :=
  { d with
    entries :=
      if (d.entries.lookup names).isSome then
        d.entries.map fun old => if old.1 == names then (names, e) else old
      else d.entries ++ [(names, e)] }

inductive Obstacle where
  /-- A name on the way is not there. -/
  | missing
  /-- A file is in the way, or a name cannot be one. -/
  | blocked
  deriving DecidableEq, Repr

def maxNameBytes : Nat := 255

def maxPathBytes : Nat := 4095

/-- Follows the names of a path from the directory `here`. The last one need not be there. Above
the root is the root. -/
def walk (d : Disk) (here : List String) : List String → Except Obstacle (List String)
  | [] => .ok here
  | name :: names =>
    match d.get? here with
    | none => .error .missing
    | some (.file _) => .error .blocked
    | some .directory =>
      if name == "." then walk d here names
      else if name == ".." then walk d here.dropLast names
      else if maxNameBytes < name.utf8ByteSize then .error .blocked
      else walk d (here ++ [name]) names

/-- The names in a path; a slash at the end asks for a directory, as a dot would. -/
def namesOf (path : String) : List String :=
  let names := (pieces "/" path).filter (!·.isEmpty)
  if path.toList.getLast? == some '/' then names ++ ["."] else names

def isPath (path : String) : Bool :=
  !path.isEmpty && path.utf8ByteSize ≤ maxPathBytes && !path.toList.contains '\x00'

/-- Where a path starts; with a slash in front, at the root. -/
def start (d : Disk) (path : String) : List String :=
  if path.toList.head? == some '/' then [] else d.workingDirectory

def locate (d : Disk) (path : String) : Except Obstacle (List String) :=
  if isPath path then d.walk (d.start path) (namesOf path) else .error .blocked

def find? (d : Disk) (path : String) : Option Entry :=
  match d.locate path with
  | .ok place => d.get? place
  | .error _ => none

def read (d : Disk) (path : String) : Option String :=
  match d.find? path with
  | some (.file text) => some text
  | _ => none

/-- The disk with the file written; none if there is a directory, or no place for the file. -/
def write? (d : Disk) (path text : String) : Option Disk :=
  match d.locate path with
  | .ok place =>
    match d.get? place, d.get? place.dropLast with
    | some .directory, _ => none
    | _, some .directory => some (d.put place (.file text))
    | _, _ => none
  | .error _ => none

def isDirectory (d : Disk) (here names : List String) : Bool :=
  match d.walk here names with
  | .ok place => d.get? place == some .directory
  | .error _ => false

def makeOne (d : Disk) (here names : List String) : Except Obstacle Disk :=
  match d.walk here names with
  | .error o => .error o
  | .ok place =>
    match d.get? place, d.get? place.dropLast with
    | some _, _ => .error .blocked
    | none, some .directory => .ok (d.put place .directory)
    | none, some (.file _) => .error .blocked
    | none, none => .error .missing

/-- Makes the directory of a path and those above it where they are missing; `above` makes those
above it. Says whether the directory is there in the end. -/
def makeWith (above : Disk → Disk × Bool) (d : Disk) (here names : List String) : Disk × Bool :=
  match d.makeOne here names with
  | .ok d => (d, true)
  | .error .blocked => (d, d.isDirectory here names)
  | .error .missing =>
    match above d with
    | (d, false) => (d, false)
    | (d, true) =>
      match d.makeOne here names with
      | .ok d => (d, true)
      | .error _ => (d, d.isDirectory here names)

def makeAll (here : List String) : List String → Disk → Disk × Bool
  | [], d => (d, true)
  | name :: names, d => makeWith (makeAll here names) d here (name :: names).reverse

/-- The names of a path without the dots that lead nowhere; a first dot stays. -/
def plainNames : List String → List String
  | [] => []
  | name :: names => name :: names.filter (· != ".")

/-- Makes a directory with all those above it. The empty path is the working directory. -/
def makeDirectory (d : Disk) (path : String) : Disk × Bool :=
  if path.isEmpty then (d, true)
  else if isPath path then
    let names := (pieces "/" path).filter (!·.isEmpty)
    makeWith (makeAll (d.start path) (plainNames names).reverse.tail) d (d.start path) names
  else (d, false)

/-- A disk with the files in its working directory, and the directories that they stand in. -/
def ofFiles (workingDirectory : List String) (files : List (String × String)) : Disk :=
  files.foldl (fun d (path, text) =>
    let names := namesOf path
    (makeAll workingDirectory names.reverse.tail d).1.put (workingDirectory ++ names) (.file text))
    { (makeAll [] workingDirectory.reverse {}).1 with workingDirectory }

end Disk

structure Session where
  disk : Disk := {}
  out : String := ""
  err : String := ""
  deriving Repr

def Disk.host : Host (StateM Session) where
  isThere path := do return ((← get).disk.find? path).isSome
  read path := do return (← get).disk.read path
  makeDirectory path := modifyGet fun s =>
    let (disk, made) := s.disk.makeDirectory path
    (made, { s with disk })
  write path text := modifyGet fun s =>
    match s.disk.write? path text with
    | some disk => (true, { s with disk })
    | none => (false, s)
  say line := modify fun s => { s with out := s.out ++ line ++ "\n" }
  complain line := modify fun s => { s with err := s.err ++ line ++ "\n" }

end SchemaStructs
