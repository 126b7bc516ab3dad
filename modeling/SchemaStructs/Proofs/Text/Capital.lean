import SchemaStructs.Proofs.Lookup
import SchemaStructs.Proofs.Text.Identifier

/-!
Texts with capitals. What stands for a character in upper case never begins with a small ASCII
letter, so neither does a text whose words are capitalized; nothing is left of it just when there
are no words.
-/

set_option autoImplicit false

namespace SchemaStructs

open Identifier

theorem isLower_iff {c : Char} : c.isLower = true ↔ 97 ≤ c.toNat ∧ c.toNat ≤ 122 := by
  have h : c.isLower = (decide ('a'.val ≤ c.val) && decide (c.val ≤ 'z'.val)) := rfl
  rw [h, Bool.and_eq_true, decide_eq_true_eq, decide_eq_true_eq, UInt32.le_iff_toNat_le,
    UInt32.le_iff_toNat_le]
  exact Iff.rfl

theorem toNat_ofNat_cases (n : Nat) : (Char.ofNat n).toNat = n ∨ (Char.ofNat n).toNat = 0 := by
  by_cases h : n.isValidChar
  · have hvalid : Char.ofNat n = Char.ofNatAux n h := dif_pos h
    exact .inl (congrArg Char.toNat hvalid)
  · have hnull : Char.ofNat n = '\x00' := dif_neg h
    exact .inr (congrArg Char.toNat hnull)

theorem isLower_ofNat {n : Nat} (h : n < 97 ∨ 122 < n) : (Char.ofNat n).isLower = false := by
  rw [Bool.eq_false_iff, Ne, isLower_iff]
  rcases toNat_ofNat_cases n with hn | hn <;> omega

def Capital (cs : List Char) : Prop := ∀ c ∈ cs.head?, c.isLower = false

namespace Capital

theorem cons {c : Char} (h : c.isLower = false) (cs : List Char) : Capital (c :: cs) := by
  intro d hd
  cases hd
  exact h

/-- All small letters have a partner, and no partner or expansion begins with a small letter. -/
theorem ofChar_append (c : Char) (cs : List Char) : Capital (UpperCase.ofChar c ++ cs) := by
  have hexpansions : ∀ e ∈ UpperCase.expansions, ∃ n ∈ e.2.head?, n < 97 ∨ 122 < n := by
    decide +kernel
  have hblocks : ∀ b ∈ UpperCase.blocks,
      b.partner + (b.last - b.first) < 97 ∨ 122 < b.partner := by decide +kernel
  have hletters : ∀ n < 123, 97 ≤ n → UpperCase.blocks.any (·.contains n) = true := by
    decide +kernel
  unfold UpperCase.ofChar
  split
  · next ns hns =>
    obtain ⟨n, hn, hrange⟩ := hexpansions _ (mem_of_lookup hns)
    obtain ⟨rest, rfl⟩ := List.head?_eq_some_iff.1 (Option.mem_def.1 hn)
    exact cons (isLower_ofNat hrange) _
  · split
    · next b hb =>
      have hcontains := List.find?_some hb
      simp only [UpperCase.Block.contains, Bool.and_eq_true, decide_eq_true_eq] at hcontains
      have hrange := hblocks b (List.mem_of_find?_eq_some hb)
      refine cons (isLower_ofNat ?_) _
      rw [UpperCase.Block.apply]
      omega
    · next hnone =>
      refine cons ?_ _
      rw [Bool.eq_false_iff, Ne, isLower_iff]
      rintro ⟨hle, hge⟩
      obtain ⟨b, hb, hcontains⟩ :=
        List.any_eq_true.1 (hletters c.toNat (Nat.lt_succ_of_le hge) hle)
      exact List.find?_eq_none.1 hnone b hb hcontains

theorem flatten {ls : List (List Char)} (h : ∀ l ∈ ls, Capital l) : Capital ls.flatten := by
  induction ls with
  | nil => simp [Capital]
  | cons l ls ih =>
    rw [List.forall_mem_cons] at h
    cases l with
    | nil => exact ih h.2
    | cons c l => exact cons (h.1 c rfl) _

theorem capitalizeChars (cs : List Char) : Capital (capitalizeChars cs) := by
  cases cs with
  | nil => simp [Capital, Identifier.capitalizeChars]
  | cons c cs => exact ofChar_append c cs

theorem pascalCase (s : String) : Capital (pascalCase s).toList := by
  rw [Identifier.pascalCase, String.toList_ofList, List.flatMap_def]
  refine flatten fun l hl => ?_
  obtain ⟨w, -, rfl⟩ := List.mem_map.1 hl
  exact capitalizeChars w

theorem sanitize {s : String} (h : Capital s.toList) : Capital (sanitize s).toList := by
  rw [Identifier.sanitize, String.toList_ofList]
  cases hchars : s.toList with
  | nil => exact cons rfl _
  | cons c cs =>
    rw [List.map_cons, guardStart]
    split
    · exact cons rfl _
    · refine cons ?_ _
      unfold mend
      split
      · exact h c (by rw [hchars]; rfl)
      · rfl

end Capital

@[simp] theorem toList_intercalate_empty (l : List String) :
    ("".intercalate l).toList = (l.map String.toList).flatten := by
  induction l with
  | nil => rfl
  | cons a l ih =>
    cases l with
    | nil => simp
    | cons b l =>
      rw [String.intercalate_cons_cons, String.toList_append, String.toList_append, ih]
      simp

theorem capital_pascalCases (path : List String) :
    Capital ("".intercalate (path.map pascalCase)).toList := by
  rw [toList_intercalate_empty, List.map_map]
  refine .flatten fun l hl => ?_
  obtain ⟨s, -, rfl⟩ := List.mem_map.1 hl
  exact .pascalCase s

theorem ofChar_ne_nil (c : Char) : UpperCase.ofChar c ≠ [] := by
  have hexpansions : ∀ e ∈ UpperCase.expansions, e.2 ≠ [] := by decide +kernel
  unfold UpperCase.ofChar
  split
  · next ns hns =>
    intro h
    exact hexpansions _ (mem_of_lookup hns) (List.map_eq_nil_iff.1 h)
  · split
    · exact List.cons_ne_nil _ _
    · exact List.cons_ne_nil _ _

theorem pascalCase_eq_empty_iff (s : String) :
    pascalCase s = "" ↔ s.toList.all isWordBreak = true := by
  rw [← String.toList_eq_nil_iff, pascalCase, String.toList_ofList]
  induction s.toList with
  | nil => simp [wordsBy, capitalizeChars]
  | cons c cs ih =>
    rw [wordsBy, List.all_cons]
    cases hbreak : isWordBreak c with
    | true => simpa [capitalizeChars] using ih
    | false =>
      cases wordsBy isWordBreak cs <;> simp [capitalizeChars, ofChar_ne_nil]

theorem isEmpty_pascalCases_iff (path : List String) :
    ("".intercalate (path.map pascalCase)).isEmpty = true ↔
      ∀ segment ∈ path, segment.toList.all isWordBreak = true := by
  rw [String.isEmpty_iff, ← String.toList_eq_nil_iff, toList_intercalate_empty,
    List.flatten_eq_nil_iff]
  simp only [List.forall_mem_map, String.toList_eq_nil_iff, pascalCase_eq_empty_iff]

end SchemaStructs
