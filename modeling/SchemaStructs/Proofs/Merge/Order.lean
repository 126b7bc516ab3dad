import Mathlib.Logic.Relation
import SchemaStructs.Proofs.Merge.Merged

set_option autoImplicit false

namespace SchemaStructs

open Classes

def PointsTo (structs : List Struct) (a b : String) : Prop :=
  ∃ t ∈ structs, t.name = a ∧ ∃ k, refAt t.fields k = some b

section

variable {structs before after : List Struct}

/-- The leader of a class stands no later than any of its members. -/
theorem leader_mem_before {key : Struct → List Field} {t : Struct}
    (hsplit : structs = before ++ after) (ht : t ∈ before) :
    leader structs key t ∈ before.map (·.name) := by
  obtain ⟨u, hu, -, hfind, -⟩ := exists_leader key ht
  have hfind' : structs.find? (key · == key t) = some u := by
    simp [hsplit, hfind]
  simp only [leader, hfind', Option.map_some, Option.getD_some]
  exact List.mem_map_of_mem hu

theorem mergeEquivalent_split (hlinked : Linked structs) {u : Struct}
    (h : mergeEquivalent structs = before ++ u :: after) :
    ∃ before' s after', structs = before' ++ s :: after' ∧ keeper structs s = u ∧
      ∀ t ∈ before', (keeper structs t).name ∈ before.map (·.name) := by
  obtain ⟨kept, rest, hfilter, rfl, hrest⟩ := List.map_eq_append_iff.1 h
  obtain ⟨s, rest, rfl, rfl, rfl⟩ := List.map_eq_cons_iff.1 hrest
  obtain ⟨before', rest', hsplit, rfl, hrest'⟩ := List.filter_eq_append_iff.1 hfilter
  obtain ⟨skipped, after', rfl, hskipped, hs, -⟩ := List.filter_eq_cons_iff.1 hrest'
  have hsplit' : structs = (before' ++ skipped) ++ s :: after' := by simp [hsplit]
  have hmem : s ∈ structs := by simp [hsplit]
  refine ⟨before' ++ skipped, s, after', hsplit', ?_, fun t ht => ?_⟩
  · exact keeper_of_kept hlinked hmem (by simpa using hs)
  · have htmem : t ∈ structs := hsplit' ▸ List.mem_append_left _ ht
    have hlead : leader structs (stable structs).signature t ∈ (before' ++ skipped).map (·.name) :=
      leader_mem_before hsplit' ht
    rw [← classOf_classesBy hlinked htmem, stable_eq hlinked] at hlead
    obtain ⟨u, hu, hname⟩ := List.mem_map.1 hlead
    have humem : u ∈ structs := hsplit' ▸ List.mem_append_left _ hu
    obtain ⟨v, hv, hvname, hkept⟩ := exists_kept hlinked htmem
    rw [hlinked.eq_of_name hv humem (hvname.trans hname.symm)] at hkept
    -- Of the structs before `s` those without a class of their own are gone.
    have hu' : u ∈ before' := by
      rcases List.mem_append.1 hu with hu | hu
      · exact hu
      · exact absurd hkept (by simpa using hskipped u hu)
    rw [keeper_name hlinked, ← hname, List.map_map]
    exact List.mem_map.2 ⟨u, List.mem_filter.2 ⟨hu', by simpa using hkept⟩, rfl⟩

theorem PointsTo.merge (hlinked : Linked structs) {a b : String} (h : PointsTo structs a b) :
    PointsTo (mergeEquivalent structs) ((stable structs).classOf a)
      ((stable structs).classOf b) := by
  obtain ⟨t, ht, rfl, k, hk⟩ := h
  refine ⟨keeper structs t, keeper_mem hlinked ht, keeper_name hlinked t, k, ?_⟩
  rw [keeper_fields hlinked ht, refAt_rename, hk, Option.map_some]

end

end SchemaStructs
