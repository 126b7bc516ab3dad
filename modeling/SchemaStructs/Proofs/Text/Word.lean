import Mathlib.Tactic.Tauto
import SchemaStructs.Header
import SchemaStructs.Proofs.Options
import SchemaStructs.Proofs.Text.Split

set_option autoImplicit false

namespace SchemaStructs

open Identifier

theorem forall_ascii {p : Char → Prop} (h : ∀ n < 128, p (Char.ofNat n)) {c : Char}
    (hc : c.toNat < 128) : p c := by
  have hn := h c.toNat hc
  rwa [Char.ofNat_toNat] at hn

theorem isAlpha_iff {c : Char} : c.isAlpha = true ↔ c.isUpper = true ∨ c.isLower = true :=
  Bool.or_eq_true_iff

theorem isPart_iff {c : Char} : isPart c = true ↔ isStart c = true ∨ c.isDigit = true := by
  simp only [isPart, isStart, Char.isAlphanum, Bool.or_eq_true]
  tauto

theorem toNat_lt_of_isPart {c : Char} (h : isPart c = true) : c.toNat < 128 := by
  have hupper : c.isUpper = true → c.toNat < 128 := by
    intro h
    have hle : c.val ≤ 'Z'.val := (of_decide_eq_true h).2
    exact Nat.lt_of_le_of_lt (UInt32.le_iff_toNat_le.1 hle) (by decide)
  have hlower : c.isLower = true → c.toNat < 128 := by
    intro h
    have hle : c.val ≤ 'z'.val := of_decide_eq_true (Bool.and_eq_true_iff.1 h).2
    exact Nat.lt_of_le_of_lt (UInt32.le_iff_toNat_le.1 hle) (by decide)
  have hdigit : c.isDigit = true → c.toNat < 128 := by
    intro h
    have hle : c.val ≤ '9'.val := of_decide_eq_true (Bool.and_eq_true_iff.1 h).2
    exact Nat.lt_of_le_of_lt (UInt32.le_iff_toNat_le.1 hle) (by decide)
  simp only [isPart, Char.isAlphanum, Bool.or_eq_true, beq_iff_eq, isAlpha_iff] at h
  rcases h with ((h | h) | h) | rfl
  · exact hupper h
  · exact hlower h
  · exact hdigit h
  · decide

theorem isPart_toUpper {c : Char} (h : isPart c = true) : isPart c.toUpper = true :=
  forall_ascii (p := fun c => isPart c = true → isPart c.toUpper = true) (by decide +kernel)
    (toNat_lt_of_isPart h) h

theorem isPart_of_isGuardChar {c : Char} (h : Options.isGuardChar c = true) : isPart c = true := by
  simp only [Options.isGuardChar, Bool.or_eq_true] at h
  simp only [isPart, Char.isAlphanum, isAlpha_iff, Bool.or_eq_true]
  tauto

def IsWord (s : String) : Prop := ∀ c ∈ s.toList, isPart c = true

theorem isIdentifier_iff {s : String} :
    isIdentifier s = true ↔ IsWord s ∧ ∃ c ∈ s.toList.head?, isStart c = true := by
  unfold isIdentifier IsWord
  cases s.toList with
  | nil => simp
  | cons c cs =>
    simp only [Bool.and_eq_true, List.all_eq_true, List.forall_mem_cons, isPart_iff,
      List.head?_cons, Option.mem_some_iff, exists_eq_left']
    tauto

namespace IsWord

variable {a b : String}

theorem append (ha : IsWord a) (hb : IsWord b) : IsWord (a ++ b) := by
  intro c hc
  rw [String.toList_append, List.mem_append] at hc
  exact hc.elim (ha c) (hb c)

theorem underscore : IsWord "_" := by
  intro c hc
  obtain rfl : c = '_' := by simpa using hc
  rfl

@[simp] theorem isPart_mend (c : Char) : isPart (mend c) = true := by
  unfold mend
  split
  · assumption
  · rfl

theorem sanitize (s : String) : IsWord (sanitize s) := by
  have hmend : ∀ c ∈ s.toList.map mend, isPart c = true := by
    intro c hc
    obtain ⟨d, -, rfl⟩ := List.mem_map.1 hc
    exact isPart_mend d
  intro c hc
  rw [Identifier.sanitize, String.toList_ofList] at hc
  cases hchars : s.toList.map mend with
  | nil =>
    rw [hchars, guardStart, List.mem_singleton] at hc
    rw [hc]
    rfl
  | cons d ds =>
    rw [hchars] at hc hmend
    rw [guardStart] at hc
    split at hc
    · rcases List.mem_cons.1 hc with rfl | hc
      · rfl
      · exact hmend c hc
    · exact hmend c hc

theorem toString (n : Nat) : IsWord (toString n) := by
  intro c hc
  rw [Nat.toString_eq_ofList_toDigits, String.toList_ofList] at hc
  have hdigit := Nat.isDigit_of_mem_toDigits (by decide) (by decide) hc
  simp [isPart, Char.isAlphanum, hdigit]

theorem shout (h : IsWord a) : IsWord (shout a) := by
  intro c hc
  rw [Identifier.shout, String.toList_ofList] at hc
  obtain ⟨d, hd, rfl⟩ := List.mem_map.1 hc
  exact isPart_toUpper (h d hd)

theorem includeGuard {start : String} (h : Options.isGuardStart start = true)
    (moduleName : String) : IsWord (includeGuard start moduleName) := by
  have hstart : IsWord start := by
    intro c hc
    unfold Options.isGuardStart at h
    split at h
    · cases h
    · next d ds hchars =>
      rw [Bool.and_eq_true, List.all_eq_true] at h
      exact isPart_of_isGuardChar (h.2 c (hchars ▸ hc))
  have hend : IsWord "_H" := by
    intro c hc
    obtain rfl | rfl : c = '_' ∨ c = 'H' := by simpa using hc
    · rfl
    · rfl
  exact ((hstart.append underscore).append (sanitize moduleName).shout).append hend

theorem segment {o : Options} (h : o.validate = .ok ()) : ∀ s ∈ o.segments, IsWord s :=
  fun s hs => (isIdentifier_iff.1 ((Options.validate_eq_ok h).1 s hs).1).1

end IsWord

theorem mem_intercalate {sep : String} {l : List String} {c : Char}
    (h : c ∈ (sep.intercalate l).toList) : c ∈ sep.toList ∨ ∃ a ∈ l, c ∈ a.toList := by
  induction l with
  | nil => simp at h
  | cons a l ih =>
    cases l with
    | nil => exact .inr ⟨a, List.mem_cons_self, by simpa using h⟩
    | cons b l =>
      rw [String.intercalate_cons_cons, String.toList_append, String.toList_append,
        List.mem_append, List.mem_append] at h
      rcases h with (ha | hsep) | hl
      · exact .inr ⟨a, List.mem_cons_self, ha⟩
      · exact .inl hsep
      · exact (ih hl).imp_right fun ⟨d, hd, hc⟩ => ⟨d, List.mem_cons_of_mem _ hd, hc⟩

theorem isPart_or_eq_of_mem_namespaces {o : Options} (h : o.validate = .ok ()) :
    ∀ c ∈ o.namespaces.toList, isPart c = true ∨ c = ':' := by
  intro c hc
  have hjoined : "::".intercalate o.segments = o.namespaces :=
    intercalate_pieces (by decide) o.namespaces
  rw [← hjoined] at hc
  rcases mem_intercalate hc with hsep | ⟨s, hs, hmem⟩
  · exact .inr (by simpa using hsep)
  · exact .inl (IsWord.segment h s hs c hmem)

end SchemaStructs
