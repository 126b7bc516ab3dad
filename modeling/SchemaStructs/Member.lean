set_option autoImplicit false

namespace SchemaStructs

structure Member (τ : Type) where
  name : String
  type : τ
  /-- The member may be absent. -/
  optional : Bool := false
  deriving DecidableEq, Repr

namespace Member

variable {σ τ υ : Type}

def map (f : σ → τ) (m : Member σ) : Member τ := ⟨m.name, f m.type, m.optional⟩

@[simp] theorem map_id (m : Member τ) : m.map id = m := rfl

@[simp] theorem map_map (f : σ → τ) (g : τ → υ) (m : Member σ) :
    (m.map f).map g = m.map (g ∘ f) := rfl

end Member

end SchemaStructs
