import SchemaStructs.Proofs.Merge.Leader

set_option autoImplicit false

namespace SchemaStructs

namespace Classes

theorem group_eq (seen : List (List Field × String)) (es : List (String × List Field)) :
    group seen es = es.map fun e =>
      (e.1, ((seen.lookup e.2).or ((es.find? (·.2 == e.2)).map (·.1))).getD e.1) := by
  induction es generalizing seen with
  | nil => rfl
  | cons e es ih =>
    obtain ⟨name, signature⟩ := e
    rw [group, List.map_cons]
    split
    · next first hfirst =>
      rw [ih, hfirst]
      refine congrArg₂ List.cons rfl (List.map_congr_left fun e _ => ?_)
      by_cases he : e.2 = signature
      · simp [he, hfirst]
      · simp [Ne.symm he]
    · next hnone =>
      rw [ih, hnone]
      refine congrArg₂ List.cons (by simp) (List.map_congr_left fun e _ => ?_)
      by_cases he : e.2 = signature
      · simp [he, hnone]
      · simp [lookup_cons_ne he, Ne.symm he]

theorem round_eq (structs : List Struct) (c : Classes) :
    round structs c = classesBy structs c.signature := by
  simp only [round, group_eq, classesBy, leader, List.map_map, List.find?_map]
  refine List.map_congr_left fun t _ => ?_
  simp [Function.comp_def]

theorem trivial_eq (structs : List Struct) :
    trivial structs = classesBy structs fun _ => [] := by
  cases structs with
  | nil => rfl
  | cons s structs => simp [trivial, classesBy, leader]

theorem signature_eq_iff {c : Classes} {s t : Struct} :
    c.signature s = c.signature t ↔ shapes s.fields = shapes t.fields ∧
      ∀ k, (refAt s.fields k).map c.classOf = (refAt t.fields k).map c.classOf := by
  simp [signature, fields_eq_iff]

theorem signature_congr {c c' : Classes} {s : Struct}
    (h : ∀ k name, refAt s.fields k = some name → c.classOf name = c'.classOf name) :
    c.signature s = c'.signature s := by
  refine fields_eq_iff.2 ⟨?_, fun k => ?_⟩
  · simp [signature]
  · simp only [signature, refAt_rename]
    exact Option.map_congr (h k)

section

variable {structs : List Struct}

/-- What holds of the classes of all structs holds of the classes of all references. -/
theorem map_refAt_eq (hlinked : Linked structs) {c c' : Classes}
    (h : ∀ u ∈ structs, ∀ v ∈ structs, c'.classOf u.name = c'.classOf v.name →
      c.classOf u.name = c.classOf v.name) {s t : Struct} (hs : s ∈ structs) (ht : t ∈ structs)
    {k : Nat} (hk : (refAt s.fields k).map c'.classOf = (refAt t.fields k).map c'.classOf) :
    (refAt s.fields k).map c.classOf = (refAt t.fields k).map c.classOf := by
  cases hsk : refAt s.fields k with
  | none => cases htk : refAt t.fields k <;> simp [hsk, htk] at hk ⊢
  | some a =>
    cases htk : refAt t.fields k with
    | none => simp [hsk, htk] at hk
    | some b =>
      obtain ⟨u, hu, rfl, -⟩ := hlinked.exists_structNamed hs hsk
      obtain ⟨v, hv, rfl, -⟩ := hlinked.exists_structNamed ht htk
      simp only [hsk, htk, Option.map_some, Option.some.injEq] at hk ⊢
      exact h u hu v hv hk

theorem signature_finer (hlinked : Linked structs) {key key' : Struct → List Field}
    (hfiner : Finer structs key' key) :
    Finer structs (classesBy structs key').signature (classesBy structs key).signature := by
  intro s hs t ht h
  obtain ⟨hshapes, hrefs⟩ := signature_eq_iff.1 h
  refine signature_eq_iff.2 ⟨hshapes, fun k => map_refAt_eq hlinked ?_ hs ht (hrefs k)⟩
  intro u hu v hv huv
  rw [classOf_classesBy hlinked hu, classOf_classesBy hlinked hv,
    leader_eq_iff hlinked hu hv] at huv ⊢
  exact hfiner u hu v hv huv

theorem classesBy_congr {key key' : Struct → List Field} (hfiner : Finer structs key' key)
    (hfiner' : Finer structs key key') :
    classesBy structs key = classesBy structs key' := by
  refine List.map_congr_left fun t ht => Prod.ext rfl (leader_congr ht fun u hu => ?_)
  exact ⟨hfiner' u hu t ht, hfiner u hu t ht⟩

def JoinsAlike (structs : List Struct) (c : Classes) : Prop :=
  ∀ s ∈ structs, ∀ t ∈ structs,
    (∀ path, unfolding structs path s.fields = unfolding structs path t.fields) →
      c.classOf s.name = c.classOf t.name

theorem joinsAlike_round (hlinked : Linked structs) {c : Classes} (hc : JoinsAlike structs c) :
    JoinsAlike structs (round structs c) := by
  intro s hs t ht halike
  rw [round_eq, classOf_classesBy hlinked hs, classOf_classesBy hlinked ht,
    leader_eq_iff hlinked hs ht, signature_eq_iff]
  obtain ⟨hshapes, hrefs⟩ := hlinked.refs_alike hs ht halike
  refine ⟨hshapes, fun k => ?_⟩
  rcases hrefs k with ⟨hsk, htk⟩ | ⟨u, hu, v, hv, hsk, htk, hbelow⟩
  · rw [hsk, htk]
  · rw [hsk, htk, Option.map_some, Option.map_some, hc u hu v hv hbelow]

theorem joinsAlike_refine (hlinked : Linked structs) (rounds : Nat) {c : Classes}
    (hc : JoinsAlike structs c) : JoinsAlike structs (refine structs rounds c) := by
  induction rounds generalizing c with
  | zero => exact hc
  | succ rounds ih =>
    have hnext := joinsAlike_round hlinked hc
    simp only [refine]
    split
    · exact hnext
    · exact ih hnext

theorem joinsAlike_stable (hlinked : Linked structs) : JoinsAlike structs (stable structs) := by
  refine joinsAlike_refine hlinked _ fun s hs t ht _ => ?_
  rw [trivial_eq, classOf_classesBy hlinked hs, classOf_classesBy hlinked ht,
    leader_eq_iff hlinked hs ht]

end

end Classes

end SchemaStructs
