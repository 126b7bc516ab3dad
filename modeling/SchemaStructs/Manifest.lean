import SchemaStructs.Options
import SchemaStructs.Toml.Reader
import SchemaStructs.Toml.Record

set_option autoImplicit false

namespace SchemaStructs

def modulePlaceholder : String := "\x7bmodule\x7d"

structure Output where
  directory : String := "generated"
  filePattern : String := modulePlaceholder ++ "Structs.h"
  /-- Nothing is written if any module fails. -/
  failFast : Bool := false
  deriving DecidableEq, Repr

structure Manifest where
  options : Options := {}
  output : Output := {}
  /-- The modules to generate; all if not given. -/
  modules : Option (List String) := none
  deriving DecidableEq, Repr

inductive ManifestDefect where
  | options (e : HeaderError)
  | emptyDirectory
  | patternWithoutModule (pattern : String)
  | patternIsPath (pattern : String)
  | emptyModuleName
  deriving DecidableEq, Repr

namespace Manifest

open Json

def fileName (m : Manifest) (moduleName : String) : String :=
  substitute modulePlaceholder moduleName m.output.filePattern

def isSeparator (c : Char) : Bool := c == '/' || c == '\\'

def validate (m : Manifest) : Except ManifestDefect Unit := do
  if let .error e := m.options.validate then throw (.options e)
  if m.output.directory.isEmpty then throw .emptyDirectory
  let pattern := m.output.filePattern
  unless holds modulePlaceholder pattern do throw (.patternWithoutModule pattern)
  if pattern.toList.any isSeparator then throw (.patternIsPath pattern)
  if (m.modules.getD []).contains "" then throw .emptyModuleName

def readOutput? (fields : FieldReader) (j : Json) : Option Output := do
  match ← fields ["directory", "file_pattern", "fail_fast"] j with
  | [d, p, f] =>
    return ⟨← orDefault ({} : Output).directory text? d,
      ← orDefault ({} : Output).filePattern text? p, ← orDefault ({} : Output).failFast bool? f⟩
  | _ => none

def modulesOfJson? : Json → Option (Option (List String))
  | .null => some none
  | j => j.texts?.map some

def read? (fields : FieldReader) (j : Json) : Option Manifest := do
  match ← fields ["generator", "output", "modules"] j with
  | [g, o, ms] =>
    return ⟨← orDefault {} (Options.read? fields) g, ← orDefault {} (readOutput? fields) o,
      ← orDefault none modulesOfJson? ms⟩
  | _ => none

def ofJson? : Json → Option Manifest := read? Json.fields?

def ofToml? (text : String) : Option Manifest := (Toml.parse? text).bind (read? Toml.fields?)

def toJson (m : Manifest) : Json :=
  .object [("generator", m.options.toJson),
    ("output", .object [("directory", .string m.output.directory),
      ("file_pattern", .string m.output.filePattern), ("fail_fast", .bool m.output.failFast)]),
    ("modules", match m.modules with
      | none => .null
      | some names => .ofTexts names)]

end Manifest

end SchemaStructs
