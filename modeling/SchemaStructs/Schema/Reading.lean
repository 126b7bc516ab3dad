import SchemaStructs.Json.Record
import SchemaStructs.Json.Sound
import SchemaStructs.Schema.Type

/-!
Types read from JSON. A type is an object whose key "type" tells its form, or the array of that
tag and the fields.

A JSON value is read from its parts upwards, into everything that it may stand for; the place
where it stands takes what it needs.
-/

set_option autoImplicit false

namespace SchemaStructs

def Scalar.tag : Scalar → String
  | .bool => "bool"
  | .number => "number"
  | .string => "string"
  | .void => "void"

def Scalar.ofTag? : String → Option Scalar
  | "bool" => some .bool
  | "number" => some .number
  | "string" => some .string
  | "void" => some .void
  | _ => none

inductive Form where
  | scalar
  | array
  | object
  | named
  | generic
  | nullable
  | enum
  deriving DecidableEq, Repr

namespace Form

def tag : Form → String
  | .scalar => "primitive"
  | .array => "array"
  | .object => "object"
  | .named => "alias"
  | .generic => "genericObject"
  | .nullable => "nullable"
  | .enum => "enum"

def ofTag? : String → Option Form
  | "primitive" => some .scalar
  | "array" => some .array
  | "object" => some .object
  | "alias" => some .named
  | "genericObject" => some .generic
  | "nullable" => some .nullable
  | "enum" => some .enum
  | _ => none

def ofNumber? : String → Option Form
  | "0" => some .scalar
  | "1" => some .array
  | "2" => some .object
  | "3" => some .named
  | "4" => some .generic
  | "5" => some .nullable
  | "6" => some .enum
  | _ => none

end Form

structure Reading where
  text : Option String := none
  flag : Option Bool := none
  texts : Option (List String) := none
  scalar : Option Scalar := none
  form : Option Form := none
  type : Option SchemaType := none
  property : Option Property := none
  properties : Option (List Property) := none
  /-- Null, or an object without entries. -/
  isVacant : Bool := false

namespace Reading

open Json (Container orDefault)

def field? (name : String) (c : Container Reading) : Option (Option Reading) :=
  (c.fields [name]).bind List.head?

def required? {α : Type} (name : String) (read : Reading → Option α) (c : Container Reading) :
    Option α := do
  read (← ← field? name c)

def type? (c : Container Reading) : Option SchemaType := do
  let (tag, c) ← c.uncons "type"
  match ← tag.form with
  | .scalar => return .scalar (← required? "kind" scalar c)
  | .array => return .array (← required? "elementType" type c)
  | .object => return .object (← orDefault [] properties (← field? "properties" c))
  | .named => return .named (← required? "name" text c)
  | .generic => do
    let _ ← c.fields []
    return .generic
  | .nullable => return .nullable (← required? "inner" type c)
  | .enum => return .enum (← required? "members" texts c)

def property? (c : Container Reading) : Option Property := do
  match ← c.fields ["name", "type", "optional"] with
  | [some n, some t, o] => return ⟨← n.text, ← t.type, ← orDefault false flag o⟩
  | _ => none

/-- A scalar may be the one key of an object that holds nothing more. -/
def scalar? : List (String × Reading) → Option Scalar
  | [(k, r)] => if r.isVacant then Scalar.ofTag? k else none
  | _ => none

def ofText (s : String) : Reading :=
  { text := some s, scalar := Scalar.ofTag? s, form := Form.ofTag? s }

def ofContainer (c : Container Reading) : Reading := { type := type? c, property := property? c }

def ofItems (rs : List Reading) : Reading :=
  { ofContainer (.items rs) with texts := rs.mapM text, properties := rs.mapM property }

def ofEntries (es : List (String × Reading)) : Reading :=
  { ofContainer (.entries es) with scalar := scalar? es, isVacant := es.isEmpty }

end Reading

mutual

def Json.reading : Json → Reading
  | .null => { isVacant := true }
  | .bool b => { flag := some b }
  | .number n => { form := Form.ofNumber? n }
  | .string s => .ofText s
  | .array items => .ofItems (Json.readings items)
  | .object entries => .ofEntries (Json.entryReadings entries)
  | .unreadable => {}

def Json.readings : List Json → List Reading
  | [] => []
  | j :: js => j.reading :: Json.readings js

def Json.entryReadings : List (String × Json) → List (String × Reading)
  | [] => []
  | (k, v) :: es => (k, v.reading) :: Json.entryReadings es

end

/-- A type that stands in no other. Its tag has to be a text, where types within it may also give
the number of their form; and it has to be sound, even where nothing is taken from it. -/
def SchemaType.ofJson? (j : Json) : Option SchemaType := do
  let (tag, _) ← (← j.container?).uncons "type"
  if tag.text?.isSome && j.isSound then j.reading.type else none

end SchemaStructs
