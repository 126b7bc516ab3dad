import Mathlib.Data.Finset.Dedup
import SchemaStructs.Proofs.Merge.Refine

set_option autoImplicit false

namespace SchemaStructs

namespace Classes

def after (structs : List Struct) : Nat → Classes
  | 0 => trivial structs
  | k + 1 => round structs (after structs k)

/-- The loop of rounds without a bound: it goes round so many times and ends with these classes. -/
inductive Ends (structs : List Struct) : Classes → Nat → Classes → Prop
  | stop {c : Classes} (same : (round structs c).size = c.size) :
      Ends structs c 1 (round structs c)
  | go {c c' : Classes} {k : Nat} (more : (round structs c).size ≠ c.size)
      (rest : Ends structs (round structs c) k c') : Ends structs c (k + 1) c'

section

variable {structs : List Struct} {key : Struct → List Field}

theorem mem_map_leader {name : String} :
    name ∈ structs.map (leader structs key) ↔
      name ∈ (structs.filter fun t => t.name == leader structs key t).map (·.name) := by
  simp only [List.mem_map, List.mem_filter, beq_iff_eq]
  constructor
  · rintro ⟨t, ht, rfl⟩
    obtain ⟨u, hu, hut, -, hlead⟩ := exists_leader key ht
    exact ⟨u, ⟨hu, by rw [← hlead, leader_eq_of_key ht hut]⟩, hlead.symm⟩
  · rintro ⟨t, ⟨ht, hlead⟩, rfl⟩
    exact ⟨t, ht, hlead.symm⟩

theorem size_eq_length_dedup (hlinked : Linked structs) :
    (classesBy structs key).size =
      (structs.map fun s => (classesBy structs key).classOf s.name).dedup.length := by
  have hclass : (structs.map fun s => (classesBy structs key).classOf s.name) =
      structs.map (leader structs key) :=
    List.map_congr_left fun s hs => classOf_classesBy hlinked hs
  have hnodup : ((structs.filter fun t => t.name == leader structs key t).map (·.name)).Nodup :=
    (List.filter_sublist.map _).nodup hlinked.distinct
  rw [hclass, size_classesBy, List.countP_eq_length_filter, ← List.length_map (f := (·.name))]
  refine (List.Perm.length_eq ?_).symm
  rw [List.perm_ext_iff_of_nodup (List.nodup_dedup _) hnodup]
  exact fun name => List.mem_dedup.trans mem_map_leader

variable (hlinked : Linked structs)

include hlinked

/-- The classes after each round come from keys, of which the next is finer. -/
theorem exists_key (k : Nat) : ∃ key : Struct → List Field,
    after structs k = classesBy structs key ∧
      Finer structs (after structs k).signature key := by
  induction k with
  | zero => exact ⟨fun _ => [], trivial_eq structs, fun _ _ _ _ _ => rfl⟩
  | succ k ih =>
    obtain ⟨key, hkey, hfiner⟩ := ih
    refine ⟨(after structs k).signature, round_eq structs _, ?_⟩
    rw [after, round_eq, hkey]
    exact signature_finer hlinked (hkey ▸ hfiner)

theorem classOf_after_of_succ (k : Nat) {s t : Struct} (hs : s ∈ structs) (ht : t ∈ structs)
    (h : (after structs (k + 1)).classOf s.name = (after structs (k + 1)).classOf t.name) :
    (after structs k).classOf s.name = (after structs k).classOf t.name := by
  obtain ⟨key, hkey, hfiner⟩ := exists_key hlinked k
  rw [after, round_eq, classOf_classesBy hlinked hs, classOf_classesBy hlinked ht,
    leader_eq_iff hlinked hs ht] at h
  rw [hkey, classOf_classesBy hlinked hs, classOf_classesBy hlinked ht,
    leader_eq_iff hlinked hs ht]
  exact hfiner s hs t ht h

theorem after_add_of_size_eq {k : Nat}
    (h : (after structs (k + 1)).size = (after structs k).size) (m : Nat) :
    after structs (k + m) = after structs k := by
  have hnext : after structs (k + 1) = after structs k := by
    obtain ⟨key, hkey, hfiner⟩ := exists_key hlinked k
    rw [after, round_eq] at h ⊢
    rw [hkey] at h hfiner ⊢
    exact (classesBy_congr hfiner (finer_of_size_eq hlinked hfiner h)).symm
  induction m with
  | zero => rfl
  | succ m ih => rw [← Nat.add_assoc, after, ih, ← after, hnext]

/-- Each round that goes on adds a class, and there are no more classes than structs. -/
theorem ends_refine (rounds : Nat) (hfiner : Finer structs (classesBy structs key).signature key)
    (hrounds : structs.length < (classesBy structs key).size + rounds) :
    ∃ k ≤ rounds, Ends structs (classesBy structs key) k
      (refine structs rounds (classesBy structs key)) := by
  induction rounds generalizing key with
  | zero =>
    have := size_le_length structs key
    omega
  | succ rounds ih =>
    rw [refine]
    split
    · next hsame => exact ⟨1, by omega, .stop hsame⟩
    · next hmore =>
      have hle := size_le_of_finer hlinked hfiner
      rw [round_eq] at hmore ⊢
      obtain ⟨k, hk, hrest⟩ := ih (signature_finer hlinked hfiner) (by omega)
      refine ⟨k + 1, by omega, .go ?_ ?_⟩
      · rwa [round_eq]
      · rwa [round_eq]

theorem exists_ends :
    ∃ k ≤ structs.length + 1, Ends structs (trivial structs) k (stable structs) := by
  rw [stable, trivial_eq]
  exact ends_refine hlinked _ (fun _ _ _ _ _ => rfl) (by omega)

theorem Ends.round_eq {k : Nat} {c : Classes} (h : Ends structs (classesBy structs key) k c)
    (hfiner : Finer structs (classesBy structs key).signature key) : round structs c = c := by
  generalize hstart : classesBy structs key = start at h hfiner
  induction h generalizing key with
  | stop same =>
    subst hstart
    rw [Classes.round_eq] at same
    have hsame := classesBy_congr hfiner (finer_of_size_eq hlinked hfiner same)
    rw [Classes.round_eq structs (classesBy structs key), ← hsame, Classes.round_eq, ← hsame]
  | go _ _ ih =>
    subst hstart
    rw [Classes.round_eq] at ih
    exact ih rfl (signature_finer hlinked hfiner)

theorem stable_eq : classesBy structs (stable structs).signature = stable structs := by
  obtain ⟨k, -, hends⟩ := exists_ends hlinked
  rw [trivial_eq] at hends
  rw [← Classes.round_eq]
  exact hends.round_eq hlinked fun _ _ _ _ _ => rfl

end

end Classes

end SchemaStructs
