import Mathlib.Control.Monad.Basic
import SchemaStructs.Proofs.Struct.Complete

set_option autoImplicit false

namespace SchemaStructs

variable {moduleName : String} {aliases : Aliases} {methods : List Method}
  {structs : List Struct}

/-- The structs keep the meaning of the schema. -/
theorem collect_represents (h : collect moduleName aliases methods = .ok structs) :
    ∃ σ, Represents aliases methods structs σ := by
  obtain ⟨s, hcomplete, rfl⟩ := exists_complete h
  obtain ⟨σ, hσ⟩ := hcomplete.exists_represents
  exact ⟨_, hσ.merge hcomplete.linked⟩

def mutualAliases : Aliases :=
  [("A", .object [⟨"next", .named "B", true⟩]), ("B", .object [⟨"next", .named "A", true⟩])]

def mutualMethods : List Method :=
  [⟨"get", [⟨"query", .object [⟨"start", .named "B", false⟩,
    ⟨"order", .array (.enum ["asc", "desc"]), false⟩]⟩], .nullable (.named "A")⟩]

def mutualStructs : List Struct :=
  [⟨"M_A", [⟨"next", .struct "M_A", true⟩], .named "A"⟩,
    ⟨"M_GetQuery", [⟨"start", .struct "M_A", false⟩,
      ⟨"order", .array (.enum ["asc", "desc"]), false⟩], .path ["get", "query"]⟩]

theorem collect_represents_mutual :
    collect "M" mutualAliases mutualMethods = .ok mutualStructs ∧
      ∃ σ, Represents mutualAliases mutualMethods mutualStructs σ := by
  have h : collect "M" mutualAliases mutualMethods = .ok mutualStructs := by decide +kernel
  exact ⟨h, collect_represents h⟩

/-- No two structs have one name, and no two unfold alike. -/
theorem collect_distinct (h : collect moduleName aliases methods = .ok structs) :
    (structs.map (·.name)).Nodup ∧ (structs.map (·.fields)).Nodup ∧
      ∀ s ∈ structs, ∀ t ∈ structs,
        (∀ path, unfolding structs path s.fields = unfolding structs path t.fields) → s = t := by
  obtain ⟨s, hcomplete, rfl⟩ := exists_complete h
  have hlinked := linked_mergeEquivalent hcomplete.linked
  have hunfold := fun u hu v hv => eq_of_unfolding_eq hcomplete.linked (u := u) (v := v) hu hv
  refine ⟨hlinked.distinct, ?_, hunfold⟩
  refine (List.Nodup.of_map _ hlinked.distinct).map_on fun u hu v hv hfields => ?_
  exact hunfold u hu v hv fun path => by rw [hfields]

theorem collect_distinct_mutual :
    collect "M" mutualAliases mutualMethods = .ok mutualStructs ∧
      (mutualStructs.map (·.name)).Nodup ∧ (mutualStructs.map (·.fields)).Nodup ∧
      ∀ s ∈ mutualStructs, ∀ t ∈ mutualStructs, (∀ path,
        unfolding mutualStructs path s.fields = unfolding mutualStructs path t.fields) → s = t := by
  have h : collect "M" mutualAliases mutualMethods = .ok mutualStructs := by decide +kernel
  exact ⟨h, collect_distinct h⟩

end SchemaStructs
