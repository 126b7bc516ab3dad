import SchemaStructs.Error
import SchemaStructs.Json.Parser
import SchemaStructs.Json.Record
import SchemaStructs.Text.Identifier

set_option autoImplicit false

namespace SchemaStructs

structure Options where
  /-- Namespaces from the outermost in, with double colons between. -/
  namespaces : String := "structgen::generated"
  guardStart : String := "STRUCTGEN"
  deriving DecidableEq, Repr

namespace Options

open Identifier Json

def segments (o : Options) : List String := pieces "::" o.namespaces

/-- Within the namespace these names would hide those that the conversions refer to. -/
def shadowsLibrary (isOutermost : Bool) (segment : String) : Bool :=
  segment == "std" || segment == "folly" || (!isOutermost && segment == "structgen")

def checkSegment (isOutermost : Bool) (segment : String) : Except HeaderError Unit :=
  if !isIdentifier segment || isReserved segment then
    .error (.invalidOptions (.segmentNotIdentifier segment))
  else if shadowsLibrary isOutermost segment then
    .error (.invalidOptions (.segmentShadowsLibrary segment))
  else .ok ()

def checkSegments : List String → Except HeaderError Unit
  | [] => .ok ()
  | outermost :: inner => do
    checkSegment true outermost
    inner.forM (checkSegment false)

def isGuardChar (c : Char) : Bool := c.isUpper || c.isDigit || c == '_'

def isGuardStart (s : String) : Bool :=
  match s.toList with
  | [] => false
  | c :: cs => !c.isDigit && (c :: cs).all isGuardChar

def validate (o : Options) : Except HeaderError Unit := do
  if o.namespaces.isEmpty then throw (.invalidOptions .emptyNamespace)
  checkSegments o.segments
  unless isGuardStart o.guardStart do throw (.invalidOptions (.guardNotUpperCase o.guardStart))

def read? (fields : FieldReader) (j : Json) : Option Options := do
  match ← fields ["namespace", "include_guard_prefix"] j with
  | [ns, g] =>
    return ⟨← orDefault ({} : Options).namespaces text? ns,
      ← orDefault ({} : Options).guardStart text? g⟩
  | _ => none

def ofJson? : Json → Option Options := read? fields?

def ofBytes? (bytes : ByteArray) : Option Options :=
  if bytes.isEmpty then some {} else (parseBytes? bytes).bind ofJson?

def toJson (o : Options) : Json :=
  .object [("namespace", .string o.namespaces), ("include_guard_prefix", .string o.guardStart)]

end Options

end SchemaStructs
