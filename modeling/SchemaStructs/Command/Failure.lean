import SchemaStructs.Manifest
import SchemaStructs.Text.Display

set_option autoImplicit false

namespace SchemaStructs

inductive Failure where
  | manifestUnreadable (path : String)
  | manifestMalformed
  | manifestInvalid (defect : ManifestDefect)
  | schemaUnreadable (path : String)
  | schemaMalformed (path : String)
  /-- A module is asked for that the schema does not have. -/
  | moduleUndefined (name : String)
  | moduleNameUnusable (name : String)
  | moduleNameIsPath (name : String)
  | moduleFailed (name : String) (e : HeaderError)
  | directoryNotMade (path : String)
  | fileNotWritten (path : String)
  | modulesNotWritten (failed : List String) (total : Nat)
  | modulesRejected (failed total : Nat)
  deriving DecidableEq, Repr

/-- A link in the chain of causes: a text of this library, or what another party has to say. -/
inductive Cause where
  | text (message : String)
  | json
  | toml
  | system
  deriving DecidableEq, Repr

def ManifestDefect.causes : ManifestDefect → List String
  | .options e => ["Invalid [generator] section", e.message]
  | .emptyDirectory => ["Output directory cannot be empty"]
  | .patternWithoutModule p =>
    ["Output file_pattern '" ++ p ++ "' must contain " ++ modulePlaceholder]
  | .patternIsPath p => ["Output file_pattern '" ++ p ++ "' must be a file name, not a path"]
  | .emptyModuleName => ["Module names in `modules` cannot be empty"]

def Failure.causes : Failure → List Cause
  | .manifestUnreadable path => [.text ("Failed to read manifest: " ++ Display.path path), .system]
  | .manifestMalformed => [.text "Failed to parse manifest", .toml]
  | .manifestInvalid defect => defect.causes.map .text
  | .schemaUnreadable path => [.text ("Failed to read schema: " ++ Display.path path), .system]
  | .schemaMalformed path => [.text ("Failed to parse schema: " ++ Display.path path), .json]
  | .moduleUndefined name => [.text ("Module '" ++ name ++ "' is not defined in the schema")]
  | .moduleNameUnusable name =>
    [.text ("Module name '" ++ name ++ "' cannot be used as a file name")]
  | .moduleNameIsPath name =>
    [.text ("Module name '" ++ Display.ascii name ++ "' must not contain path separators")]
  | .moduleFailed name e => [.text ("Module '" ++ name ++ "' failed: " ++ e.message)]
  | .directoryNotMade path =>
    [.text ("Failed to create directory: " ++ Display.path path), .system]
  | .fileNotWritten path => [.text ("Failed to write " ++ Display.path path), .system]
  | .modulesNotWritten failed total =>
    [.text (toString failed.length ++ " of " ++ toString total ++ " module(s) failed: " ++
      ", ".intercalate failed)]
  | .modulesRejected failed total =>
    [.text (toString failed ++ " of " ++ toString total ++ " module(s) failed")]

end SchemaStructs
