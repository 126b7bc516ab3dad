import SchemaStructs.Schema.Document
import SchemaStructs.Schema.Reading

set_option autoImplicit false

namespace SchemaStructs

def Form.entry (f : Form) : String × Json := ("type", .string f.tag)

mutual

def SchemaType.toJson : SchemaType → Json
  | .scalar kind => .object [Form.scalar.entry, ("kind", .string kind.tag)]
  | .array element => .object [Form.array.entry, ("elementType", element.toJson)]
  | .object ps => .object [Form.object.entry, ("properties", .array (Property.toJsons ps))]
  | .named name => .object [Form.named.entry, ("name", .string name)]
  | .generic => .object [Form.generic.entry]
  | .nullable inner => .object [Form.nullable.entry, ("inner", inner.toJson)]
  | .enum members => .object [Form.enum.entry, ("members", .ofTexts members)]

def Property.toJsons : List Property → List Json
  | [] => []
  | ⟨name, type, optional⟩ :: ps =>
    .object [("name", .string name), ("type", type.toJson), ("optional", .bool optional)] ::
      Property.toJsons ps

end

namespace Json

def listOf? {α : Type} (read : Json → Option α) (j : Json) : Option (List α) := do
  (← j.items?).mapM read

def mapOf? {α : Type} (read : Json → Option α) (j : Json) : Option (NameMap α) := do
  let bindings ← (← j.entries?).mapM fun e => do return (e.1, ← read e.2)
  return .ofList bindings

def ofMap {α : Type} (write : α → Json) (m : NameMap α) : Json :=
  .object (m.entries.map fun e => (e.1, write e.2))

end Json

open Json (orDefault listOf? mapOf?)

namespace Param

def ofJson? (j : Json) : Option Param := do
  match ← j.fields? ["name", "type"] with
  | [some n, some t] => return ⟨← n.text?, ← SchemaType.ofJson? t⟩
  | _ => none

def toJson (p : Param) : Json := .object [("name", .string p.name), ("type", p.type.toJson)]

end Param

namespace Method

def ofJson? (j : Json) : Option Method := do
  match ← j.fields? ["name", "params", "returnType"] with
  | [some n, ps, r] =>
    return ⟨← n.text?, ← orDefault [] (listOf? Param.ofJson?) ps,
      ← orDefault (.scalar .void) SchemaType.ofJson? r⟩
  | _ => none

def toJson (m : Method) : Json :=
  .object [("name", .string m.name), ("params", .array (m.params.map Param.toJson)),
    ("returnType", m.result.toJson)]

end Method

namespace Module

def ofJson? (j : Json) : Option Module := do
  match ← j.fields? ["aliases", "methods"] with
  | [as, ms] =>
    return ⟨← orDefault .empty (mapOf? SchemaType.ofJson?) as,
      ← orDefault [] (listOf? Method.ofJson?) ms⟩
  | _ => none

def toJson (m : Module) : Json :=
  .object [("aliases", .ofMap SchemaType.toJson m.aliases),
    ("methods", .array (m.methods.map Method.toJson))]

end Module

namespace Document

def ofJson? (j : Json) : Option Document := do
  match ← j.fields? ["modules"] with
  | [ms] => return ⟨← orDefault .empty (mapOf? Module.ofJson?) ms⟩
  | _ => none

def toJson (d : Document) : Json := .object [("modules", .ofMap Module.toJson d.modules)]

end Document

end SchemaStructs
