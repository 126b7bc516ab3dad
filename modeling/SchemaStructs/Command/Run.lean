import SchemaStructs.Command.Select
import SchemaStructs.Json.Parser
import SchemaStructs.Schema.Format

set_option autoImplicit false

namespace SchemaStructs

structure Host (m : Type → Type) where
  isThere : String → m Bool
  /-- The text of a file, if it can be read. -/
  read : String → m (Option String)
  /-- Makes a directory with all those above it; false if it is not there in the end. -/
  makeDirectory : String → m Bool
  write : String → String → m Bool
  say : String → m Unit
  /-- Prints a line to the error stream. -/
  complain : String → m Unit

def defaultManifest : String := "structgen.toml"

def schemaDepth : Nat := 127

def Document.ofText? (text : String) : Option Document := do
  Document.ofJson? ((← Json.parse? text).within schemaDepth)

/-- The path of a name within a directory; in the empty directory it is the name itself. -/
def join (directory name : String) : String :=
  if directory.isEmpty || directory.toList.getLast? == some '/' then directory ++ name
  else directory ++ "/" ++ name

namespace Command

variable {m : Type → Type} [Monad m] (host : Host m)

def fail {α : Type} (failure : Failure) : ExceptT (Halt Failure) m α := throw (.failed failure)

def ofExcept {ε α : Type} (halt : ε → Halt Failure) : Except ε α → ExceptT (Halt Failure) m α
  | .ok a => return a
  | .error e => throw (halt e)

def ofOption {α : Type} (failure : Failure) : Option α → ExceptT (Halt Failure) m α
  | some a => return a
  | none => fail failure

def readManifest (path : String) : ExceptT (Halt Failure) m Manifest := do
  let text ← ofOption (.manifestUnreadable path) (← host.read path)
  ofOption .manifestMalformed (Manifest.ofToml? text)

/-- The manifest of the path, or the one in the working directory, or the defaults. -/
def loadManifest : Option String → ExceptT (Halt Failure) m Manifest
  | some path => readManifest host path
  | none => do
    if ← host.isThere defaultManifest then readManifest host defaultManifest else return {}

def validate (manifest : Manifest) : ExceptT (Halt Failure) m Unit :=
  ofExcept (.failed ∘ .manifestInvalid) manifest.validate

def readDocument (path : String) : ExceptT (Halt Failure) m Document := do
  let text ← ofOption (.schemaUnreadable path) (← host.read path)
  ofOption (.schemaMalformed path) (Document.ofText? text)

def stopAtFailure (manifest : Manifest) (failed : List (String × HeaderError)) :
    ExceptT (Halt Failure) m Unit :=
  match manifest.output.failFast, failed with
  | true, (name, e) :: _ => fail (.moduleFailed name e)
  | _, _ => return ()

def writeHeaders (manifest : Manifest) (directory : String) :
    List Outcome → ExceptT (Halt Failure) m (List String)
  | [] => return []
  | o :: os =>
    match o.result with
    | .error _ => writeHeaders manifest directory os
    | .ok header => do
      let path := join directory (manifest.fileName o.name)
      unless ← host.write path header do fail (.fileNotWritten path)
      return path :: (← writeHeaders manifest directory os)

def good (text : String) : String := "✓ " ++ text

def bad (name : String) (e : HeaderError) : String := "✗ " ++ name ++ ": " ++ e.message

def generate (schema : String) (output manifestPath : Option String) (requested : List String) :
    ExceptT (Halt Failure) m Unit := do
  let manifest ← loadManifest host manifestPath
  validate manifest
  let document ← readDocument host schema
  let selected ← ofExcept .failed (select document manifest requested)
  let directory := output.getD manifest.output.directory
  host.say ("Generating " ++ toString selected.length ++ " module(s) from " ++ schema ++ " into " ++
    directory)
  let results ← ofExcept id (outcomes manifest.options selected)
  let failed := results.filterMap Outcome.failed?
  stopAtFailure manifest failed
  unless ← host.makeDirectory directory do fail (.directoryNotMade directory)
  let written ← writeHeaders host manifest directory results
  written.forM fun path => host.say (good path)
  failed.forM fun (name, e) => host.complain (bad name e)
  unless failed.isEmpty do fail (.modulesNotWritten (failed.map (·.1)) results.length)

def check (schema : String) (manifestPath : Option String) (requested : List String) :
    ExceptT (Halt Failure) m Unit := do
  let manifest ← loadManifest host manifestPath
  validate manifest
  host.say ("Checking schema: " ++ schema)
  let document ← readDocument host schema
  let selected ← ofExcept .failed (select document manifest requested)
  let results ← ofExcept id (outcomes manifest.options selected)
  results.forM fun o =>
    host.say (match o.result with
      | .ok _ => good o.name
      | .error e => bad o.name e)
  let failed := results.filterMap Outcome.failed?
  unless failed.isEmpty do fail (.modulesRejected failed.length results.length)
  host.say "\nSchema is valid!"

def showModules : Option (List String) → String
  | none => "all"
  | some names => ", ".intercalate names

def checkManifest (manifestPath : Option String) : ExceptT (Halt Failure) m Unit := do
  let path := manifestPath.getD defaultManifest
  host.say ("Checking manifest: " ++ path)
  let manifest ← readManifest host path
  validate manifest
  host.say (good ("Namespace: " ++ manifest.options.namespaces))
  host.say (good ("Include guard prefix: " ++ manifest.options.guardStart))
  host.say (good ("Output: " ++ manifest.output.directory ++ "/" ++ manifest.output.filePattern))
  host.say (good ("Modules: " ++ showModules manifest.modules))
  host.say "\nManifest is valid!"

end Command

end SchemaStructs
