import SchemaStructs.NameMap
import SchemaStructs.Schema.Type

set_option autoImplicit false

namespace SchemaStructs

structure Param where
  name : String
  type : SchemaType
  deriving Repr

structure Method where
  name : String
  params : List Param := []
  result : SchemaType := .scalar .void
  deriving Repr

structure Module where
  aliases : NameMap SchemaType := .empty
  methods : List Method := []

structure Document where
  modules : NameMap Module := .empty

structure Slot where
  path : List String
  type : SchemaType
  isResult : Bool
  deriving Repr

def resultSegment : String := "returnType"

def Method.slots (m : Method) : List Slot :=
  m.params.map (fun p => ⟨[m.name, p.name], p.type, false⟩) ++
    [⟨[m.name, resultSegment], m.result, true⟩]

def Module.slots (m : Module) : List Slot := m.methods.flatMap Method.slots

end SchemaStructs
