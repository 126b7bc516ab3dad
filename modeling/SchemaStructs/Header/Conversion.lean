import SchemaStructs.Header.Type
import SchemaStructs.Text.Literal

set_option autoImplicit false

namespace SchemaStructs

inductive Place where
  /-- The pointer to the value of the key at hand. -/
  | field
  /-- The variable of the loop that has `depth` loops around it. -/
  | item (depth : Nat)
  | member (ident : String)
  | target (pointer : Place)
  deriving DecidableEq, Repr

def Place.spelling : Place → String
  | .field => "field"
  | .item depth => "item" ++ toString depth
  | .member ident => "this->" ++ ident
  | .target pointer => "(*" ++ pointer.spelling ++ ")"

def itemsName (depth : Nat) : String := "items" ++ toString depth

inductive ReadExpr where
  | bool (source : Place)
  | number (source : Place)
  | string (source : Place)
  | oneOf (source : Place) (members : List String)
  | dynamic (source : Place)
  | struct (name : String) (source : Place)
  | shared (name : String) (source : Place)
  /-- Reads every item of an array at `.item depth`. -/
  | vector (type : CppType) (depth : Nat) (source : Place) (each : ReadExpr)
  /-- Nothing for a null, or else a value. -/
  | optional (type : CppType) (source : Place) (value : ReadExpr)
  deriving DecidableEq, Repr

inductive WriteExpr where
  | scalar (source : Place)
  | dynamic (source : Place)
  | struct (source : Place)
  /-- A null for a null pointer. -/
  | shared (source : Place)
  | vector (depth : Nat) (source : Place) (each : WriteExpr)
  /-- A null for nothing, or else a value. -/
  | optional (source : Place) (value : WriteExpr)
  deriving DecidableEq, Repr

namespace CppType

def reader : CppType → Place → Nat → ReadExpr
  | .bool, s, _ => .bool s
  | .number, s, _ => .number s
  | .string, s, _ => .string s
  | .enum members, s, _ => .oneOf s members
  | .dynamic, s, _ => .dynamic s
  | .struct name, s, _ => .struct name s
  | .shared name, s, _ => .shared name s
  | .vector element, s, depth =>
    .vector (.vector element) depth s (element.reader (.item depth) (depth + 1))
  | .optional inner, s, depth => .optional (.optional inner) s (inner.reader s depth)

def writer : CppType → Place → Nat → WriteExpr
  | .bool, s, _ | .number, s, _ | .string, s, _ | .enum _, s, _ => .scalar s
  | .dynamic, s, _ => .dynamic s
  | .struct _, s, _ => .struct s
  | .shared _, s, _ => .shared s
  | .vector element, s, depth => .vector depth s (element.writer (.item depth) (depth + 1))
  | .optional inner, s, depth => .optional s (inner.writer (.target s) depth)

end CppType

def loop (type initial list : String) (depth : Nat) (each : String) : String :=
  let items := itemsName depth
  "[&]() \x7b " ++ type ++ " " ++ items ++ initial ++ "; for (const auto &" ++
    (Place.item depth).spelling ++ " : " ++ list ++ ") \x7b " ++ items ++ ".push_back(" ++ each ++
    "); \x7d return " ++ items ++ "; \x7d()"

/-- A check of the runtime, which is told the names of struct and field for its errors. -/
def checked (check : String) (source : Place) (names : String) : String :=
  "structgen::detail::" ++ check ++ "(" ++ source.spelling ++ ", " ++ names ++ ")"

def ReadExpr.spelling (names : String) : ReadExpr → String
  | .bool s => checked "expectBool" s names
  | .number s => checked "expectNumber" s names
  | .string s => checked "expectString" s names
  | .oneOf s members =>
    checked "expectOneOf" s
      ("\x7b" ++ ", ".intercalate (members.map Literal.quote) ++ "\x7d, " ++ names)
  | .dynamic s => "folly::dynamic(" ++ s.spelling ++ ")"
  | .struct name s => name ++ "::fromDynamic(" ++ s.spelling ++ ")"
  | .shared name s =>
    "std::make_shared<" ++ name ++ ">(" ++ name ++ "::fromDynamic(" ++ s.spelling ++ "))"
  | .vector type depth s each =>
    loop type.spelling "" (checked "expectArray" s names) depth (each.spelling names)
  | .optional type s value =>
    "(" ++ s.spelling ++ ".isNull() ? " ++ type.spelling ++ "() : " ++ type.spelling ++ "(" ++
      value.spelling names ++ "))"

def WriteExpr.spelling : WriteExpr → String
  | .scalar s => "folly::dynamic(" ++ s.spelling ++ ")"
  | .dynamic s => s.spelling
  | .struct s => s.spelling ++ ".toDynamic()"
  | .shared s =>
    "(" ++ s.spelling ++ " ? " ++ s.spelling ++ "->toDynamic() : folly::dynamic(nullptr))"
  | .vector depth s each =>
    loop "folly::dynamic" " = folly::dynamic::array()" s.spelling depth each.spelling
  | .optional s value =>
    "(" ++ s.spelling ++ " ? " ++ value.spelling ++ " : folly::dynamic(nullptr))"

structure Assignment where
  ident : String
  /-- The member is an optional, and the value is what it holds from then on. -/
  wraps : Bool
  value : ReadExpr
  deriving DecidableEq, Repr

inductive ReadStatement where
  /-- Refuses a value that is no object. -/
  | expectObject
  | declare
  | ifPresent (key : String) (assignment : Assignment)
  /-- Refuses an object without the key. -/
  | require (key : String) (assignment : Assignment)
  deriving DecidableEq, Repr

inductive WriteStatement where
  | declare
  | put (key : String) (value : WriteExpr)
  /-- Writes only what is there. -/
  | putIf (holder : Place) (key : String) (value : WriteExpr)
  deriving DecidableEq, Repr

def Assignment.spelling (names : String) (a : Assignment) : String :=
  "    result." ++ a.ident ++ " = " ++ a.value.spelling names ++ ";\n"

def ReadStatement.spelling (struct : String) : ReadStatement → String
  | .expectObject =>
    "  structgen::detail::expectObject(value, " ++ Literal.quote struct ++ ", \"<value>\");\n"
  | .declare => "  " ++ struct ++ " result;\n"
  | .ifPresent key a =>
    "  if (const auto *field = value.get_ptr(" ++ Literal.quote key ++ ")) \x7b\n" ++
      a.spelling (Literal.quote struct ++ ", " ++ Literal.quote key) ++ "  \x7d\n"
  | .require key a =>
    let names := Literal.quote struct ++ ", " ++ Literal.quote key
    "  \x7b\n" ++
      "    const auto *field = value.get_ptr(" ++ Literal.quote key ++ ");\n" ++
      "    if (field == nullptr) \x7b\n" ++
      "      throw structgen::MissingRequiredFieldError(" ++ names ++ ");\n" ++
      "    \x7d\n" ++ a.spelling names ++ "  \x7d\n"

def putSpelling (key : String) (value : WriteExpr) : String :=
  "result[" ++ Literal.quote key ++ "] = " ++ value.spelling ++ ";\n"

def WriteStatement.spelling : WriteStatement → String
  | .declare => "  folly::dynamic result = folly::dynamic::object();\n"
  | .put key value => "  " ++ putSpelling key value
  | .putIf holder key value =>
    "  if (" ++ holder.spelling ++ ") \x7b\n    " ++ putSpelling key value ++ "  \x7d\n"

end SchemaStructs
