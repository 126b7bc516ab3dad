set_option autoImplicit false

namespace SchemaStructs

inductive Defect where
  | voidValue
  | emptyEnum
  | duplicateProperty (name : String)
  /-- A defect that a caller states in its own words. -/
  | other (reason : String)
  deriving DecidableEq, Repr

def Defect.message : Defect → String
  | .voidValue => "void is only allowed as a method return type"
  | .emptyEnum => "enum must have at least one member"
  | .duplicateProperty name => "duplicate property '" ++ name ++ "'"
  | .other reason => reason

inductive OptionDefect where
  | emptyNamespace
  | segmentNotIdentifier (segment : String)
  | segmentShadowsLibrary (segment : String)
  | guardNotUpperCase (start : String)
  | other (reason : String)
  deriving DecidableEq, Repr

def OptionDefect.message : OptionDefect → String
  | .emptyNamespace => "namespace cannot be empty"
  | .segmentNotIdentifier s => "namespace segment '" ++ s ++ "' is not a valid C++ identifier"
  | .segmentShadowsLibrary s => "namespace segment '" ++ s ++ "' would shadow a library namespace"
  | .guardNotUpperCase p =>
    "include guard prefix '" ++ p ++ "' must be upper-case letters, digits and underscores"
  | .other reason => reason

inductive HeaderError where
  /-- An alias cycle that has no guard, or crosses no property. -/
  | recursiveAlias (name : String) (path : List String)
  | unknownAlias (name : String)
  /-- A name and all its numbered forms are taken. -/
  | namesExhausted (base : String) (attempts : Nat)
  | invalidAt (path : List String) (defect : Defect)
  /-- A struct is referred to that is not in the list. -/
  | unknownStruct (name : String)
  | invalidOptions (defect : OptionDefect)
  deriving DecidableEq, Repr

namespace HeaderError

def code : HeaderError → Nat
  | .recursiveAlias .. => 1
  | .unknownAlias _ => 2
  | .namesExhausted .. => 3
  | .invalidAt .. => 4
  | .unknownStruct _ => 5
  | .invalidOptions _ => 6

/-- The fault lies with the generator and not with what it was given. -/
def isInternal : HeaderError → Bool
  | .namesExhausted .. | .unknownStruct _ => true
  | _ => false

def showPath (path : List String) : String :=
  if path.isEmpty then "<root>" else ".".intercalate path

def message : HeaderError → String
  | .recursiveAlias name path =>
    "recursive alias '" ++ name ++ "' cannot be represented by value (path: " ++
      " -> ".intercalate path ++ ")"
  | .unknownAlias name => "unknown type alias '" ++ name ++ "'"
  | .namesExhausted base attempts =>
    "could not derive a unique struct name from '" ++ base ++ "' after " ++ toString attempts ++
      " attempts"
  | .invalidAt path defect => "invalid schema at " ++ showPath path ++ ": " ++ defect.message
  | .unknownStruct name => "struct '" ++ name ++ "' is referenced but was never collected"
  | .invalidOptions defect => "invalid generator options: " ++ defect.message

end HeaderError

/-- How a computation goes that gives no result. -/
inductive Halt (ε : Type) where
  | failed (error : ε)
  /-- It goes round and round until the system puts an end to the whole program. -/
  | endless
  deriving DecidableEq, Repr

/-- A failure is an answer like any other; what has no end has none. -/
def Halt.attempt {ε δ α : Type} : Except (Halt ε) α → Except (Halt δ) (Except ε α)
  | .ok a => .ok (.ok a)
  | .error (.failed e) => .ok (.error e)
  | .error .endless => .error .endless

end SchemaStructs
