import SchemaStructs.Proofs.Merge.Merged

/-!
The merge of a longer list. Structs that refer only to each other unfold as they did when more
structs follow, so they fall into the same classes with the same first members, and what the merge
leaves of them stands in front as before.
-/

set_option autoImplicit false

namespace SchemaStructs

open Classes

section

variable {structs : List Struct} {s t : Struct}

theorem stable_classOf_eq_iff_unfolding (hlinked : Linked structs) (hs : s ∈ structs)
    (ht : t ∈ structs) :
    (stable structs).classOf s.name = (stable structs).classOf t.name ↔
      ∀ path, unfolding structs path s.fields = unfolding structs path t.fields := by
  constructor
  · intro h path
    have hkeeper : (keeper structs s).fields = (keeper structs t).fields := by
      rw [keeper_fields hlinked hs, keeper_fields hlinked ht]
      exact (stable_classOf_eq_iff hlinked hs ht).1 h
    rw [← unfolding_mergeEquivalent hlinked hs, hkeeper, unfolding_mergeEquivalent hlinked ht]
  · exact joinsAlike_stable hlinked s hs t ht

end

section

variable {before after : List Struct} {s t : Struct}

theorem unfolding_append (hlinked : Linked before) (hs : s ∈ before) (path : List Nat) :
    unfolding (before ++ after) path s.fields = unfolding before path s.fields := by
  induction path generalizing s with
  | nil => rfl
  | cons k path ih =>
    simp only [unfolding]
    cases hk : refAt s.fields k with
    | none => rfl
    | some name =>
      obtain ⟨t, ht, rfl, hfind⟩ := hlinked.exists_structNamed hs hk
      have hfind' : structNamed (before ++ after) t.name = some t := by
        rw [structNamed, List.find?_append, ← structNamed, hfind]
        rfl
      simp only [Option.bind_eq_bind, Option.bind_some, hfind, hfind']
      exact ih ht

theorem leader_append (key : Struct → List Field) (ht : t ∈ before) :
    leader (before ++ after) key t = leader before key t := by
  obtain ⟨u, -, -, hfind, -⟩ := exists_leader key ht
  rw [leader, leader, List.find?_append, hfind]
  rfl

theorem stable_classOf_append (hlinked : Linked before) (hall : Linked (before ++ after))
    (ht : t ∈ before) :
    (stable (before ++ after)).classOf t.name = (stable before).classOf t.name := by
  have hmem : ∀ u ∈ before, u ∈ before ++ after := fun u hu => List.mem_append_left after hu
  -- Both classes are led by the first struct before that unfolds like `t`.
  have hkeys : ∀ u ∈ before, (stable (before ++ after)).signature u =
      (stable (before ++ after)).signature t ↔
        (stable before).signature u = (stable before).signature t := by
    intro u hu
    rw [← stable_classOf_eq_iff hall (hmem u hu) (hmem t ht),
      ← stable_classOf_eq_iff hlinked hu ht,
      stable_classOf_eq_iff_unfolding hall (hmem u hu) (hmem t ht),
      stable_classOf_eq_iff_unfolding hlinked hu ht]
    simp only [unfolding_append hlinked hu, unfolding_append hlinked ht]
  calc (stable (before ++ after)).classOf t.name
      = leader (before ++ after) (stable (before ++ after)).signature t := by
        rw [← classOf_classesBy hall (hmem t ht), stable_eq hall]
    _ = leader before (stable (before ++ after)).signature t := leader_append _ ht
    _ = leader before (stable before).signature t := leader_congr ht hkeys
    _ = (stable before).classOf t.name := by
        rw [← classOf_classesBy hlinked ht, stable_eq hlinked]

theorem stable_signature_append (hlinked : Linked before) (hall : Linked (before ++ after))
    (hs : s ∈ before) :
    (stable (before ++ after)).signature s = (stable before).signature s := by
  refine signature_congr fun k name hk => ?_
  obtain ⟨t, ht, rfl, -⟩ := hlinked.exists_structNamed hs hk
  exact stable_classOf_append hlinked hall ht

/-- What the merge leaves of the structs before does not depend on those that follow. -/
theorem mergeEquivalent_append (hlinked : Linked before) (hall : Linked (before ++ after)) :
    mergeEquivalent before <+: mergeEquivalent (before ++ after) := by
  have hkept : (before.filter fun s => (stable (before ++ after)).classOf s.name == s.name) =
      before.filter fun s => (stable before).classOf s.name == s.name :=
    List.filter_congr fun s hs => by rw [stable_classOf_append hlinked hall hs]
  rw [mergeEquivalent, mergeEquivalent, List.filter_append, List.map_append, hkept]
  refine ⟨_, congrArg (· ++ _) (List.map_congr_left fun s hs => ?_)⟩
  rw [stable_signature_append hlinked hall (List.mem_of_mem_filter hs)]

end

end SchemaStructs
