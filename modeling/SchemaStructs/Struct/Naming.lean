import SchemaStructs.Text.Identifier

/-!
Names of structs. An object that an alias defines is named for the alias, any other object for the
path of names that leads to it; a number tells apart structs that would have one name.
-/

set_option autoImplicit false

namespace SchemaStructs.Naming

open Identifier

def elementSegment : String := "element"

/-- The module's name stands in front unless the alias already begins with it. -/
def ofAlias (moduleName name : String) : String :=
  let owner := sanitize moduleName
  let name := sanitize name
  if (owner ++ "_").toList.isPrefixOf name.toList then name else owner ++ "_" ++ name

def ofPath (moduleName : String) (path : List String) : String :=
  let owner := sanitize moduleName
  let tail := "".intercalate (path.map pascalCase)
  if tail.isEmpty then owner else owner ++ "_" ++ sanitize tail

def numbered (base : String) (n : Nat) : String := base ++ "_" ++ toString n

def maxNumber : Nat := 99

/-- The name itself, then its numbered forms from 2 on. -/
def candidates (base : String) (last : Nat) : List String :=
  base :: (List.range' 2 (last - 1)).map (numbered base)

def firstFree? (taken : List String) (base : String) (last : Nat) : Option String :=
  (candidates base last).find? (!taken.contains ·)

end SchemaStructs.Naming
