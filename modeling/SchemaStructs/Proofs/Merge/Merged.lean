import SchemaStructs.Proofs.Merge.Rounds

set_option autoImplicit false

namespace SchemaStructs

open Classes

def keeper (structs : List Struct) (s : Struct) : Struct :=
  let kept := (structNamed structs ((stable structs).classOf s.name)).getD s
  { kept with fields := (stable structs).signature kept }

section

variable {structs : List Struct} {s t : Struct}

theorem stable_classOf_eq_iff (hlinked : Linked structs) (hs : s ∈ structs) (ht : t ∈ structs) :
    (stable structs).classOf s.name = (stable structs).classOf t.name ↔
      (stable structs).signature s = (stable structs).signature t := by
  rw [← leader_eq_iff hlinked hs ht, ← classOf_classesBy hlinked hs,
    ← classOf_classesBy hlinked ht, stable_eq hlinked]

theorem exists_kept (hlinked : Linked structs) (hs : s ∈ structs) :
    ∃ u ∈ structs, u.name = (stable structs).classOf s.name ∧
      (stable structs).classOf u.name = u.name := by
  obtain ⟨u, hu, hus, -, hlead⟩ := exists_leader (stable structs).signature hs
  rw [← classOf_classesBy hlinked hs, stable_eq hlinked] at hlead
  exact ⟨u, hu, hlead.symm, by rw [(stable_classOf_eq_iff hlinked hu hs).2 hus, hlead]⟩

theorem mem_mergeEquivalent {u : Struct} :
    u ∈ mergeEquivalent structs ↔ ∃ s ∈ structs, (stable structs).classOf s.name = s.name ∧
      { s with fields := (stable structs).signature s } = u := by
  simp [mergeEquivalent, and_assoc]

theorem keeper_of_kept (hlinked : Linked structs) (hs : s ∈ structs)
    (h : (stable structs).classOf s.name = s.name) :
    keeper structs s = { s with fields := (stable structs).signature s } := by
  simp only [keeper, h, hlinked.structNamed_eq hs, Option.getD_some]

theorem keeper_mem (hlinked : Linked structs) (hs : s ∈ structs) :
    keeper structs s ∈ mergeEquivalent structs := by
  obtain ⟨u, hu, hname, hkept⟩ := exists_kept hlinked hs
  refine mem_mergeEquivalent.2 ⟨u, hu, hkept, ?_⟩
  simp only [keeper, ← hname, hlinked.structNamed_eq hu, Option.getD_some]

theorem keeper_fields (hlinked : Linked structs) (hs : s ∈ structs) :
    (keeper structs s).fields = s.fields.map (Field.rename (stable structs).classOf) := by
  obtain ⟨u, hu, hname, hkept⟩ := exists_kept hlinked hs
  have hsig := (stable_classOf_eq_iff hlinked hu hs).1 (hkept.trans hname)
  simp only [keeper, ← hname, hlinked.structNamed_eq hu, Option.getD_some]
  exact hsig

theorem keeper_name (hlinked : Linked structs) (s : Struct) :
    (keeper structs s).name = (stable structs).classOf s.name := by
  by_cases hs : s.name ∈ structs.map (·.name)
  · obtain ⟨t, ht, hname⟩ := List.mem_map.1 hs
    obtain ⟨u, hu, hkept, -⟩ := exists_kept hlinked ht
    rw [hname] at hkept
    simp only [keeper, ← hkept, hlinked.structNamed_eq hu, Option.getD_some]
  · have hclass : (stable structs).classOf s.name = s.name := by
      rw [← stable_eq hlinked, classOf_eq_self hs]
    have hnone : structNamed structs s.name = none := by
      refine List.find?_eq_none.2 fun t ht h => hs ?_
      rw [← eq_of_beq h]
      exact List.mem_map_of_mem ht
    simp only [keeper, hclass, hnone, Option.getD_none]

theorem linked_mergeEquivalent (hlinked : Linked structs) : Linked (mergeEquivalent structs) where
  distinct := by
    have hnames : (mergeEquivalent structs).map (·.name) =
        (structs.filter fun s => (stable structs).classOf s.name == s.name).map (·.name) := by
      simp [mergeEquivalent]
    rw [hnames]
    exact (List.filter_sublist.map _).nodup hlinked.distinct
  closed := by
    intro u hu k name hk
    obtain ⟨s, hs, -, rfl⟩ := mem_mergeEquivalent.1 hu
    rw [Classes.signature, refAt_rename, Option.map_eq_some_iff] at hk
    obtain ⟨r, hr, rfl⟩ := hk
    obtain ⟨t, ht, rfl, -⟩ := hlinked.exists_structNamed hs hr
    rw [← keeper_name hlinked t]
    exact List.mem_map_of_mem (keeper_mem hlinked ht)

/-- Where each struct is in a class of its own, the merge has nothing to do. -/
theorem mergeEquivalent_of_classOf_eq_self (hlinked : Linked structs)
    (h : ∀ s ∈ structs, (stable structs).classOf s.name = s.name) :
    mergeEquivalent structs = structs := by
  have hkept : structs.filter (fun s => (stable structs).classOf s.name == s.name) = structs :=
    List.filter_eq_self.2 fun s hs => by simpa using h s hs
  rw [mergeEquivalent, hkept]
  refine (List.map_congr_left fun s hs => ?_).trans (List.map_id structs)
  have hsignature : (stable structs).signature s = s.fields := by
    refine fields_eq_iff.2 ⟨shapes_rename _ _, fun k => ?_⟩
    rw [signature, refAt_rename]
    cases hk : refAt s.fields k with
    | none => rfl
    | some name =>
      obtain ⟨t, ht, rfl, -⟩ := hlinked.exists_structNamed hs hk
      rw [Option.map_some, h t ht]
  rw [hsignature]
  rfl

theorem unfolding_mergeEquivalent (hlinked : Linked structs) (hs : s ∈ structs)
    (path : List Nat) :
    unfolding (mergeEquivalent structs) path (keeper structs s).fields =
      unfolding structs path s.fields := by
  induction path generalizing s with
  | nil => simp [unfolding, keeper_fields hlinked hs]
  | cons k path ih =>
    simp only [unfolding, keeper_fields hlinked hs, refAt_rename]
    cases hk : refAt s.fields k with
    | none => rfl
    | some r =>
      obtain ⟨t, ht, rfl, hfind⟩ := hlinked.exists_structNamed hs hk
      -- The reference now names the struct that is kept for `t`.
      have hkept := (linked_mergeEquivalent hlinked).structNamed_eq (keeper_mem hlinked ht)
      rw [keeper_name hlinked] at hkept
      simp only [Option.map_some, hfind, hkept, Option.bind_eq_bind, Option.bind_some]
      exact ih ht

theorem eq_of_unfolding_eq (hlinked : Linked structs) {u v : Struct}
    (hu : u ∈ mergeEquivalent structs) (hv : v ∈ mergeEquivalent structs)
    (h : ∀ path, unfolding (mergeEquivalent structs) path u.fields =
      unfolding (mergeEquivalent structs) path v.fields) : u = v := by
  obtain ⟨s, hs, hskept, rfl⟩ := mem_mergeEquivalent.1 hu
  obtain ⟨t, ht, htkept, rfl⟩ := mem_mergeEquivalent.1 hv
  have halike : ∀ path, unfolding structs path s.fields = unfolding structs path t.fields := by
    intro path
    rw [← unfolding_mergeEquivalent hlinked hs, ← unfolding_mergeEquivalent hlinked ht,
      keeper_of_kept hlinked hs hskept, keeper_of_kept hlinked ht htkept]
    exact h path
  have hname : s.name = t.name := by
    rw [← hskept, ← htkept]
    exact joinsAlike_stable hlinked s hs t ht halike
  rw [hlinked.eq_of_name hs ht hname]

end

end SchemaStructs
