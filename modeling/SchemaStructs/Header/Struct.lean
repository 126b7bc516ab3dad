import SchemaStructs.Error
import SchemaStructs.Header.Conversion
import SchemaStructs.Header.Ident

/-!
C++ structs: members, a constructor and the two conversions. A struct is declared first and its
functions are defined apart, so that a header can declare all structs before it defines any
function.
-/

set_option autoImplicit false

namespace SchemaStructs

structure CppMember where
  key : String
  ident : String
  type : CppType
  /-- The key may be absent; then the type is an optional. -/
  optional : Bool
  deriving DecidableEq, Repr

structure CppStruct where
  name : String
  members : List CppMember
  deriving DecidableEq, Repr

namespace CppMember

def declared (m : CppMember) : String := m.type.spelling ++ " " ++ m.ident

/-- Reads the value of a present key. It is null only if the type itself is nullable. -/
def reader (m : CppMember) : ReadExpr :=
  match m.optional, m.type with
  | true, .optional inner => inner.reader (.target .field) 0
  | _, type => type.reader (.target .field) 0

/-- The member is an optional for the value of its key, written only if it holds something. -/
def isGuarded (m : CppMember) : Bool :=
  match m.type, m.optional with
  | .optional _, true => true
  | _, _ => false

def writer (m : CppMember) : WriteExpr :=
  match m.type, m.optional with
  | .optional inner, true => inner.writer (.target (.member m.ident)) 0
  | type, _ => type.writer (.member m.ident) 0

def declaration (m : CppMember) : String :=
  "  " ++ m.declared ++ (if m.type.needsInitializer then "\x7b\x7d" else "") ++ ";\n"

def reading (m : CppMember) : ReadStatement :=
  let assignment : Assignment := ⟨m.ident, m.isGuarded, m.reader⟩
  if m.optional then .ifPresent m.key assignment else .require m.key assignment

def writing (m : CppMember) : WriteStatement :=
  if m.isGuarded then .putIf (.member m.ident) m.key m.writer else .put m.key m.writer

end CppMember

namespace CppStruct

def parameters (s : CppStruct) : String := ", ".intercalate (s.members.map CppMember.declared)

def declaration (s : CppStruct) : String :=
  "struct " ++ s.name ++ " \x7b\n" ++
    String.join (s.members.map CppMember.declaration) ++
    (if s.members.isEmpty then "" else "\n") ++
    "  " ++ s.name ++ "() = default;\n" ++
    (if s.members.isEmpty then ""
      else
        "  " ++ (if s.members.length = 1 then "explicit " else "") ++ s.name ++ "(" ++
          s.parameters ++ ");\n") ++
    "\n  static " ++ s.name ++ " fromDynamic(const folly::dynamic &value);\n" ++
    "  folly::dynamic toDynamic() const;\n" ++
    "\x7d;\n"

/-- A struct without members has no constructor but the default one. -/
def constructor? (s : CppStruct) : Option String :=
  if s.members.isEmpty then none
  else
    some <| "inline " ++ s.name ++ "::" ++ s.name ++ "(" ++ s.parameters ++ ")\n    : " ++
      ", ".intercalate (s.members.map fun m => m.ident ++ "(std::move(" ++ m.ident ++ "))") ++
      " \x7b\x7d\n"

/-- The statements that read a struct, but for the last, which returns it. -/
def reading (s : CppStruct) : List ReadStatement :=
  .expectObject :: .declare :: s.members.map CppMember.reading

def writing (s : CppStruct) : List WriteStatement := .declare :: s.members.map CppMember.writing

def fromDynamic (s : CppStruct) : String :=
  "inline " ++ s.name ++ " " ++ s.name ++ "::fromDynamic(const folly::dynamic &value) \x7b\n" ++
    String.join (s.reading.map (ReadStatement.spelling s.name)) ++ "  return result;\n\x7d\n"

def toDynamic (s : CppStruct) : String :=
  "inline folly::dynamic " ++ s.name ++ "::toDynamic() const \x7b\n" ++
    String.join (s.writing.map WriteStatement.spelling) ++ "  return result;\n\x7d\n"

def definitions (s : CppStruct) : String :=
  (match s.constructor? with
    | some c => c ++ "\n"
    | none => "") ++ s.fromDynamic ++ "\n" ++ s.toDynamic

/-- The C++ struct of a struct of the list; the structs before it are complete. -/
def ofStruct (all : List Struct) (s : Struct) : Except HeaderError CppStruct := do
  let names := all.map (·.name)
  unless names.contains s.name do throw (.unknownStruct s.name)
  if let some name := s.dependencies.find? (!names.contains ·) then throw (.unknownStruct name)
  let complete := names.takeWhile (· != s.name)
  let idents := Ident.assign names [] (s.fields.map (·.name))
  return ⟨s.name, (s.fields.zip idents).map fun (f, ident) =>
    ⟨f.name, ident, CppType.ofField (complete.contains ·) f, f.optional⟩⟩

end CppStruct

end SchemaStructs
