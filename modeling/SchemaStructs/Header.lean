import SchemaStructs.Header.Runtime
import SchemaStructs.Header.Struct
import SchemaStructs.Options
import SchemaStructs.Struct.Collect

set_option autoImplicit false

namespace SchemaStructs

def includes : List String := [
  "#include <initializer_list>\n",
  "#include <memory>\n",
  "#include <optional>\n",
  "#include <stdexcept>\n",
  "#include <string>\n",
  "#include <utility>\n",
  "#include <vector>\n",
  "\n",
  "#include <folly/dynamic.h>\n"]

def includeGuard (start moduleName : String) : String :=
  start ++ "_" ++ Identifier.shout (Identifier.sanitize moduleName) ++ "_H"

/-- A module's name may not end the comment that it stands in. -/
def banner (moduleName : String) : String :=
  "/**\n" ++
    " * This file is generated by structgen. Do not edit.\n" ++
    " *\n" ++
    " * Module: " ++ substitute "*/" "* /" moduleName ++ "\n" ++
    " */\n\n"

def structSection (structs : List CppStruct) : String :=
  if structs.isEmpty then ""
  else
    String.join (structs.map fun s => "struct " ++ s.name ++ ";\n") ++ "\n" ++
      String.join (structs.map fun s => s.declaration ++ "\n") ++
      String.join (structs.map fun s => s.definitions ++ "\n")

def renderHeader (moduleName : String) (options : Options) (structs : List CppStruct) : String :=
  let guard := includeGuard options.guardStart moduleName
  banner moduleName ++
    "#ifndef " ++ guard ++ "\n" ++
    "#define " ++ guard ++ "\n\n" ++
    String.join includes ++ "\n" ++
    runtime ++ "\n" ++
    "namespace " ++ options.namespaces ++ " \x7b\n\n" ++
    structSection structs ++
    "\x7d // namespace " ++ options.namespaces ++ "\n\n" ++
    "#endif // " ++ guard ++ "\n"

/-- The header of a module, or the first error: of the options, of the types, of the structs. -/
def generate (options : Options) (moduleName : String) (aliases : Aliases)
    (methods : List Method) : Except (Halt HeaderError) String := do
  options.validate.mapError Halt.failed
  let structs ← collect moduleName aliases methods
  let cppStructs ← (structs.mapM (CppStruct.ofStruct structs)).mapError Halt.failed
  return renderHeader moduleName options cppStructs

def Module.generate (options : Options) (moduleName : String) (m : Module) :
    Except (Halt HeaderError) String :=
  SchemaStructs.generate options moduleName m.aliases.entries m.methods

def Document.generate (options : Options) (d : Document) :
    Except (Halt HeaderError) (List (String × Except HeaderError String)) :=
  d.modules.entries.mapM fun (name, m) =>
    return (name, ← Halt.attempt (m.generate options name))

end SchemaStructs
