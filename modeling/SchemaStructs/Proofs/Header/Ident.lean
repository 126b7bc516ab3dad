import Mathlib.Data.List.Nodup
import Mathlib.Data.List.Perm.Subperm
import SchemaStructs.Header.Ident

/-!
The identifiers of members as they are searched for, one after another. Each search ends, as the
forms of a name are endless and the used names are not, so no two members of a struct have one
identifier.
-/

set_option autoImplicit false

namespace SchemaStructs

namespace Naming

theorem numbered_injective (base : String) : Function.Injective (numbered base) := by
  intro m n h
  have hchars := congrArg String.toList h
  simp only [numbered, String.toList_append] at hchars
  have hdigits := congrArg (Nat.ofDigitChars 10 · 0) (List.append_cancel_left hchars)
  simpa [Nat.toString_eq_ofList_toDigits] using hdigits

theorem numbered_ne (base : String) (n : Nat) : numbered base n ≠ base := by
  intro h
  have hlength := congrArg (·.toList.length) h
  simp [numbered, String.toList_append] at hlength

theorem nodup_candidates (base : String) (last : Nat) : (candidates base last).Nodup := by
  refine List.nodup_cons.2 ⟨fun hmem => ?_, ?_⟩
  · obtain ⟨n, -, hn⟩ := List.mem_map.1 hmem
    exact numbered_ne base n hn
  · exact List.Nodup.map (numbered_injective base) List.nodup_range'

theorem length_candidates (base : String) (last : Nat) (h : 0 < last) :
    (candidates base last).length = last := by
  rw [candidates, List.length_cons, List.length_map, List.length_range']
  omega

/-- The name itself, then its numbered forms from 2 on, without end. -/
def form (base : String) : Nat → String
  | 0 => base
  | n + 1 => numbered base (n + 2)

theorem candidates_eq (base : String) (last : Nat) :
    candidates base (last + 1) = (List.range (last + 1)).map (form base) := by
  rw [candidates, List.range_succ_eq_map, List.map_cons, List.map_map, List.range'_eq_map_range,
    List.map_map]
  refine congrArg (base :: ·) (List.map_congr_left fun n _ => ?_)
  rw [Function.comp_apply, Function.comp_apply, form, Nat.add_comm]

end Naming

namespace Ident

variable {structs used keys idents : List String} {ident : String}

/-- Not all candidates are used, as they are different and more than the used names. -/
theorem exists_firstFree? (used : List String) (ident : String) :
    ∃ name, Naming.firstFree? used ident (used.length + 1) = some name := by
  rw [← Option.isSome_iff_exists, Naming.firstFree?, List.find?_isSome]
  by_contra hnone
  have hused : Naming.candidates ident (used.length + 1) ⊆ used := by
    intro name hmem
    by_contra hfree
    exact hnone ⟨name, hmem, by simpa using hfree⟩
  have hle := (List.subperm_of_subset (Naming.nodup_candidates _ _) hused).length_le
  rw [Naming.length_candidates _ _ (Nat.succ_pos _)] at hle
  omega

/-- The identifier found is the first form that is not used, and there are no more attempts than
used names before it. -/
theorem exists_unused (used : List String) (ident : String) :
    ∃ n ≤ used.length, unused used ident = Naming.form ident n ∧ Naming.form ident n ∉ used ∧
      ∀ m < n, Naming.form ident m ∈ used := by
  obtain ⟨name, hname⟩ := exists_firstFree? used ident
  rw [unused, hname, Option.getD_some]
  rw [Naming.firstFree?, Naming.candidates_eq, List.find?_map, Option.map_eq_some_iff] at hname
  obtain ⟨n, hfind, rfl⟩ := hname
  obtain ⟨hfree, hrange, hbefore⟩ := List.find?_range_eq_some.1 hfind
  refine ⟨n, Nat.le_of_lt_succ (List.mem_range.1 hrange), rfl, by simpa using hfree, ?_⟩
  intro m hm
  simpa using hbefore m hm

theorem unused_notMem (used : List String) (ident : String) : unused used ident ∉ used := by
  obtain ⟨n, -, hn, hfree, -⟩ := exists_unused used ident
  exact hn ▸ hfree

theorem nodup_assign (structs used keys : List String) :
    (assign structs used keys).Nodup ∧ ∀ ident ∈ assign structs used keys, ident ∉ used := by
  induction keys generalizing used with
  | nil => simp [assign]
  | cons key keys ih =>
    obtain ⟨hnodup, hfresh⟩ := ih (unused used (wish structs key) :: used)
    simp only [List.mem_cons, not_or] at hfresh
    refine ⟨List.nodup_cons.2 ⟨fun hmem => (hfresh _ hmem).1 rfl, hnodup⟩, ?_⟩
    intro ident hmem
    rcases List.mem_cons.1 hmem with rfl | hmem
    · exact unused_notMem used _
    · exact (hfresh ident hmem).2

/-- The search for an identifier from an attempt on: a form that is used leads to the next one,
and no bound is set. -/
inductive Searches (used : List String) (ident : String) : Nat → String → Prop
  | free {n : Nat} (free : Naming.form ident n ∉ used) :
      Searches used ident n (Naming.form ident n)
  | next {n : Nat} {found : String} (isUsed : Naming.form ident n ∈ used)
      (rest : Searches used ident (n + 1) found) : Searches used ident n found

theorem searches_iff {start : Nat} {found : String} : Searches used ident start found ↔
    ∃ n, found = Naming.form ident (start + n) ∧ found ∉ used ∧
      ∀ m < n, Naming.form ident (start + m) ∈ used := by
  constructor
  · intro h
    induction h with
    | free hfree => exact ⟨0, rfl, hfree, by simp⟩
    | @next start found hused _ ih =>
      obtain ⟨n, hn, hfree, hbefore⟩ := ih
      refine ⟨n + 1, ?_, hfree, fun m hm => ?_⟩
      · rw [hn, Nat.add_right_comm, Nat.add_assoc]
      · cases m with
        | zero => exact hused
        | succ m =>
          have hm := hbefore m (by omega)
          rwa [Nat.add_right_comm, Nat.add_assoc] at hm
  · rintro ⟨n, rfl, hfree, hbefore⟩
    -- Each attempt that fails moves the start up and leaves one attempt less.
    induction n generalizing start with
    | zero => exact .free hfree
    | succ n ih =>
      refine .next (hbefore 0 (by omega)) ?_
      have hshift : ∀ m, start + (m + 1) = start + 1 + m := fun m => by omega
      rw [hshift n] at hfree ⊢
      exact ih hfree fun m hm => hshift m ▸ hbefore (m + 1) (by omega)

theorem searches_iff_eq_unused {found : String} :
    Searches used ident 0 found ↔ found = unused used ident := by
  obtain ⟨n, -, hn, hfree, hbefore⟩ := exists_unused used ident
  simp only [searches_iff, Nat.zero_add]
  constructor
  · rintro ⟨m, rfl, hfree', hbefore'⟩
    rw [hn]
    rcases Nat.lt_trichotomy m n with h | rfl | h
    · exact absurd (hbefore m h) hfree'
    · rfl
    · exact absurd (hbefore' n h) hfree
  · rintro rfl
    exact ⟨n, hn, hn ▸ hfree, hbefore⟩

inductive Assigns (structs : List String) : List String → List String → List String → Prop
  | nil {used : List String} : Assigns structs used [] []
  | cons {used keys idents : List String} {key ident : String}
      (search : Searches used (wish structs key) 0 ident)
      (rest : Assigns structs (ident :: used) keys idents) :
      Assigns structs used (key :: keys) (ident :: idents)

theorem assigns_iff : Assigns structs used keys idents ↔ idents = assign structs used keys := by
  constructor
  · intro h
    induction h with
    | nil => rfl
    | cons search _ ih => rw [ih, searches_iff_eq_unused.1 search, assign]
  · rintro rfl
    induction keys generalizing used with
    | nil => exact .nil
    | cons key keys ih => exact .cons (searches_iff_eq_unused.2 rfl) ih

end Ident

end SchemaStructs
