import SchemaStructs.Proofs.Merge.Append

set_option autoImplicit false

namespace SchemaStructs

open Classes

/-- Structs that `R` brings together have fields of one shape, and where they refer to structs `R`
brings these together too. -/
def IsBisimulation (structs : List Struct) (R : Struct → Struct → Prop) : Prop :=
  ∀ s ∈ structs, ∀ t ∈ structs, R s t → shapes s.fields = shapes t.fields ∧ ∀ k,
    refAt s.fields k = none ∧ refAt t.fields k = none ∨
      ∃ u ∈ structs, ∃ v ∈ structs, refAt s.fields k = some u.name ∧
        refAt t.fields k = some v.name ∧ R u v

def Bisimilar (structs : List Struct) (s t : Struct) : Prop :=
  ∃ R, IsBisimulation structs R ∧ R s t

section

variable {structs : List Struct} {s t : Struct} (hlinked : Linked structs)

include hlinked

theorem IsBisimulation.unfolding_eq {R : Struct → Struct → Prop} (hR : IsBisimulation structs R)
    (hs : s ∈ structs) (ht : t ∈ structs) (h : R s t) (path : List Nat) :
    unfolding structs path s.fields = unfolding structs path t.fields := by
  induction path generalizing s t with
  | nil => simp only [unfolding, (hR s hs t ht h).1]
  | cons k path ih =>
    rcases (hR s hs t ht h).2 k with ⟨hsk, htk⟩ | ⟨u, hu, v, hv, hsk, htk, huv⟩
    · simp only [unfolding, hsk, htk]
    · simp only [unfolding, hsk, htk, hlinked.structNamed_eq hu, hlinked.structNamed_eq hv,
        Option.bind_eq_bind, Option.bind_some]
      exact ih hu hv huv

theorem bisimilar_iff_unfolding (hs : s ∈ structs) (ht : t ∈ structs) :
    Bisimilar structs s t ↔
      ∀ path, unfolding structs path s.fields = unfolding structs path t.fields := by
  constructor
  · rintro ⟨R, hR, h⟩
    exact hR.unfolding_eq hlinked hs ht h
  · intro halike
    refine ⟨fun u v => ∀ path, unfolding structs path u.fields = unfolding structs path v.fields,
      fun u hu v hv h => hlinked.refs_alike hu hv h, halike⟩

theorem stable_classOf_eq_iff_bisimilar (hs : s ∈ structs) (ht : t ∈ structs) :
    (stable structs).classOf s.name = (stable structs).classOf t.name ↔ Bisimilar structs s t :=
  (stable_classOf_eq_iff_unfolding hlinked hs ht).trans
    (bisimilar_iff_unfolding hlinked hs ht).symm

theorem exists_first (hs : s ∈ structs) :
    ∃ before u after, structs = before ++ u :: after ∧ Bisimilar structs u s ∧
      (∀ t ∈ before, ¬ Bisimilar structs t s) ∧ (stable structs).classOf s.name = u.name := by
  obtain ⟨u, hu, -, hfind, hlead⟩ := exists_leader (stable structs).signature hs
  have hclass : ∀ t ∈ structs, Bisimilar structs t s ↔
      (stable structs).signature t = (stable structs).signature s := fun t ht =>
    (stable_classOf_eq_iff_bisimilar hlinked ht hs).symm.trans (stable_classOf_eq_iff hlinked ht hs)
  obtain ⟨hus, before, after, hsplit, hbefore⟩ := List.find?_eq_some_iff_append.1 hfind
  refine ⟨before, u, after, hsplit, (hclass u hu).2 (by simpa using hus), fun t ht hts => ?_, ?_⟩
  · have hkey := (hclass t (hsplit ▸ List.mem_append_left _ ht)).1 hts
    simpa [hkey] using hbefore t ht
  · rw [← stable_eq hlinked, classOf_classesBy hlinked hs, hlead]

/-- No two of the structs that are kept are alike, so each keeps its class for itself. -/
theorem mergeEquivalent_idem :
    mergeEquivalent (mergeEquivalent structs) = mergeEquivalent structs := by
  have hmerged := linked_mergeEquivalent hlinked
  refine mergeEquivalent_of_classOf_eq_self hmerged fun u hu => ?_
  obtain ⟨v, hv, hname, hkept⟩ := exists_kept hmerged hu
  have halike := (stable_classOf_eq_iff_unfolding hmerged hv hu).1 (hkept.trans hname)
  rw [← hname, eq_of_unfolding_eq hlinked hv hu halike]

/-- Each round splits the classes of the round before, so that the number of classes tells whether
they still change, and the loop ends in time. In the end two structs share a class iff they are
bisimilar, which is to unfold alike. Of each class the first member is kept, in the old order, and
with its name, its origin and its fields, in which each reference now names the first member of the
class of its target. Merging again changes nothing. -/
theorem mergeEquivalent_exact :
    (∀ k, ∀ s ∈ structs, ∀ t ∈ structs,
      (after structs (k + 1)).classOf s.name = (after structs (k + 1)).classOf t.name →
        (after structs k).classOf s.name = (after structs k).classOf t.name) ∧
    (∀ k, (after structs k).size =
        (structs.map fun s => (after structs k).classOf s.name).dedup.length ∧
      ((after structs (k + 1)).size = (after structs k).size ↔
        ∀ m, after structs (k + m) = after structs k)) ∧
    (∃ k ≤ structs.length + 1, Ends structs (trivial structs) k (stable structs)) ∧
    (∀ s ∈ structs, ∀ t ∈ structs,
      ((stable structs).classOf s.name = (stable structs).classOf t.name ↔
        Bisimilar structs s t) ∧
      (Bisimilar structs s t ↔
        ∀ path, unfolding structs path s.fields = unfolding structs path t.fields)) ∧
    (∃ first : String → String,
      (∀ s ∈ structs, ∃ before u after, structs = before ++ u :: after ∧ Bisimilar structs u s ∧
        (∀ t ∈ before, ¬ Bisimilar structs t s) ∧ first s.name = u.name) ∧
      mergeEquivalent structs = (structs.filter fun s => first s.name == s.name).map fun s =>
        ⟨s.name, s.fields.map (Field.rename first), s.origin⟩) ∧
    mergeEquivalent (mergeEquivalent structs) = mergeEquivalent structs := by
  refine ⟨fun k s hs t ht => classOf_after_of_succ hlinked k hs ht, fun k => ⟨?_, ?_, ?_⟩,
    exists_ends hlinked, fun s hs t ht => ⟨?_, ?_⟩, ?_, mergeEquivalent_idem hlinked⟩
  · obtain ⟨key, hkey, -⟩ := exists_key hlinked k
    rw [hkey]
    exact size_eq_length_dedup hlinked
  · exact after_add_of_size_eq hlinked
  · exact fun hsame => congrArg size (hsame 1)
  · exact stable_classOf_eq_iff_bisimilar hlinked hs ht
  · exact bisimilar_iff_unfolding hlinked hs ht
  · exact ⟨(stable structs).classOf, fun s hs => exists_first hlinked hs, rfl⟩

end

/-- The first two refer to each other, so they unfold alike, and so do then the other two. -/
def tangledStructs : List Struct :=
  [⟨"A", [⟨"next", .nullable (.struct "B"), true⟩], .named "A"⟩,
    ⟨"B", [⟨"next", .nullable (.struct "A"), true⟩], .named "B"⟩,
    ⟨"C", [⟨"all", .array (.struct "B"), false⟩], .named "C"⟩,
    ⟨"D", [⟨"all", .array (.struct "A"), false⟩], .path ["get", "returnType"]⟩]

theorem mergeEquivalent_exact_tangled :
    Linked tangledStructs ∧
    (∃ k ≤ 5, Ends tangledStructs (trivial tangledStructs) k (stable tangledStructs)) ∧
    (∀ s ∈ tangledStructs, ∀ t ∈ tangledStructs, s.name = "C" → t.name = "D" →
      Bisimilar tangledStructs s t) ∧
    mergeEquivalent [⟨"A", [⟨"next", .nullable (.struct "A"), true⟩], .named "A"⟩,
        ⟨"C", [⟨"all", .array (.struct "A"), false⟩], .named "C"⟩] =
      [⟨"A", [⟨"next", .nullable (.struct "A"), true⟩], .named "A"⟩,
        ⟨"C", [⟨"all", .array (.struct "A"), false⟩], .named "C"⟩] := by
  have hlinked : Linked tangledStructs := by
    refine ⟨by decide, fun s hs k name hk => ?_⟩
    have hall : ∀ s ∈ tangledStructs, ∀ name ∈ s.dependencies,
        name ∈ tangledStructs.map (·.name) := by decide
    exact hall s hs name (Struct.mem_dependencies.2 ⟨k, hk⟩)
  have hclass : (stable tangledStructs).classOf "C" = (stable tangledStructs).classOf "D" := by
    decide +kernel
  have hmerged : mergeEquivalent tangledStructs =
      [⟨"A", [⟨"next", .nullable (.struct "A"), true⟩], .named "A"⟩,
        ⟨"C", [⟨"all", .array (.struct "A"), false⟩], .named "C"⟩] := by decide +kernel
  obtain ⟨-, -, hends, hclasses, -, hagain⟩ := mergeEquivalent_exact hlinked
  rw [hmerged] at hagain
  refine ⟨hlinked, hends, fun s hs t ht hC hD => ?_, hagain⟩
  exact (hclasses s hs t ht).1.1 (by rw [hC, hD, hclass])

end SchemaStructs
