import SchemaStructs.Command.Failure
import SchemaStructs.Header

set_option autoImplicit false

namespace SchemaStructs

def checkModuleName (name : String) : Except Failure Unit :=
  if name == "" || name == "." || name == ".." then .error (.moduleNameUnusable name)
  else if name.toList.any fun c => Manifest.isSeparator c || c == '\x00' then
    .error (.moduleNameIsPath name)
  else .ok ()

/-- The list in force: the modules asked for, or else those of the manifest, or else all. -/
def wanted? (manifest : Manifest) (requested : List String) : Option (List String) :=
  if requested.isEmpty then manifest.modules else some requested

/-- The modules in force, in the order of their names. All that are asked for must be there, and
every name must do as a file's name. -/
def select (document : Document) (manifest : Manifest) (requested : List String) :
    Except Failure (List (String × Module)) := do
  let wanted := wanted? manifest requested
  if let some name := (wanted.getD []).find? (!document.modules.contains ·) then
    throw (.moduleUndefined name)
  let selected := document.modules.entries.filter fun e =>
    match wanted with
    | none => true
    | some names => names.contains e.1
  selected.forM fun e => checkModuleName e.1
  return selected

structure Outcome where
  name : String
  result : Except HeaderError String

/-- What becomes of each module; one that fails does not stop the others, one without end stops
all. -/
def outcomes (options : Options) (selected : List (String × Module)) :
    Except (Halt Failure) (List Outcome) :=
  selected.mapM fun e => return ⟨e.1, ← Halt.attempt (e.2.generate options e.1)⟩

def Outcome.failed? (o : Outcome) : Option (String × HeaderError) :=
  match o.result with
  | .ok _ => none
  | .error e => some (o.name, e)

end SchemaStructs
