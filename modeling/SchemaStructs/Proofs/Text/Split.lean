import Mathlib.Data.List.Basic
import SchemaStructs.Text.Split

set_option autoImplicit false

namespace SchemaStructs

def replaceFrom (old new : List Char) : Nat → List Char → List Char
  | _, [] => []
  | skip + 1, _ :: cs => replaceFrom old new skip cs
  | 0, c :: cs =>
    if old.isPrefixOf (c :: cs) then new ++ replaceFrom old new (old.length - 1) cs
    else c :: replaceFrom old new 0 cs

theorem piecesFrom_ne_nil (sep : List Char) (skip : Nat) (cs : List Char) :
    piecesFrom sep skip cs ≠ [] := by
  induction cs generalizing skip with
  | nil => simp [piecesFrom]
  | cons c cs ih =>
    cases skip with
    | succ skip => exact ih skip
    | zero =>
      rw [piecesFrom]
      split
      · simp
      · split <;> simp

theorem intercalate_piecesFrom (old new : List Char) (skip : Nat) (cs : List Char) :
    new.intercalate (piecesFrom old skip cs) = replaceFrom old new skip cs := by
  induction cs generalizing skip with
  | nil => simp [piecesFrom, replaceFrom]
  | cons c cs ih =>
    cases skip with
    | succ skip => exact ih skip
    | zero =>
      rw [piecesFrom, replaceFrom]
      split
      · rw [← ih]
        cases hpieces : piecesFrom old (old.length - 1) cs with
        | nil => exact absurd hpieces (piecesFrom_ne_nil _ _ _)
        | cons p ps => simp
      · rw [← ih]
        cases hpieces : piecesFrom old 0 cs with
        | nil => exact absurd hpieces (piecesFrom_ne_nil _ _ _)
        | cons p ps => cases ps <;> simp

@[simp] theorem toList_substitute (old new text : String) :
    (substitute old new text).toList = replaceFrom old.toList new.toList 0 text.toList := by
  rw [substitute, String.toList_intercalate, pieces, List.map_map, ← intercalate_piecesFrom]
  congr 1
  simp [Function.comp_def]

theorem replaceFrom_self {sep : List Char} (hsep : sep ≠ []) (skip : Nat) (cs : List Char) :
    replaceFrom sep sep skip cs = cs.drop skip := by
  induction cs generalizing skip with
  | nil => simp [replaceFrom]
  | cons c cs ih =>
    cases skip with
    | succ skip => exact ih skip
    | zero =>
      rw [replaceFrom]
      split
      · next hprefix =>
        rw [ih]
        obtain ⟨rest, hrest⟩ := List.isPrefixOf_iff_prefix.1 hprefix
        obtain ⟨d, ds, rfl⟩ := List.exists_cons_of_ne_nil hsep
        rw [List.cons_append, List.cons.injEq] at hrest
        obtain ⟨rfl, rfl⟩ := hrest
        simp
      · rw [ih, List.drop_zero, List.drop_zero]

theorem intercalate_pieces {sep : String} (hsep : sep ≠ "") (text : String) :
    sep.intercalate (pieces sep text) = text := by
  have h := toList_substitute sep sep text
  rw [replaceFrom_self (by simpa using hsep), List.drop_zero] at h
  exact String.toList_inj.1 h

section

variable {α : Type}

theorem length_intercalate (sep : List α) {ps : List (List α)} (h : ps ≠ []) :
    (sep.intercalate ps).length + sep.length = ps.flatten.length + ps.length * sep.length := by
  induction ps with
  | nil => exact absurd rfl h
  | cons p ps ih =>
    cases ps with
    | nil => simp
    | cons q ps =>
      have hrest := ih (List.cons_ne_nil q ps)
      rw [List.intercalate_cons_cons]
      simp only [List.length_append, List.length_cons, List.flatten_cons, Nat.add_mul] at hrest ⊢
      omega

theorem infix_intercalate (sep : List α) : {ps : List (List α)} → 1 < ps.length →
    sep <:+: sep.intercalate ps
  | p :: q :: rest, _ => by
    rw [List.intercalate_cons_cons]
    exact ⟨p, sep.intercalate (q :: rest), rfl⟩

theorem mem_intercalate_of_mem (sep : List α) {ps : List (List α)} {p : List α} {a : α}
    (hp : p ∈ ps) (ha : a ∈ p) : a ∈ sep.intercalate ps := by
  induction ps with
  | nil => cases hp
  | cons q ps ih =>
    cases ps with
    | nil =>
      rw [List.mem_singleton.1 hp] at ha
      simpa using ha
    | cons r ps =>
      rw [List.intercalate_cons_cons, List.mem_append, List.mem_append]
      rcases List.mem_cons.1 hp with rfl | hp
      · exact .inl (.inl ha)
      · exact .inr (ih hp)

/-- What stands between at least two pieces can be told from the whole. -/
theorem intercalate_injective : {ps : List (List α)} → 1 < ps.length →
    Function.Injective fun sep : List α => sep.intercalate ps
  | p :: q :: rest, _ => by
    intro a b heq
    have hlength : a.length = b.length := by
      have ha := length_intercalate a (List.cons_ne_nil p (q :: rest))
      have hb := length_intercalate b (List.cons_ne_nil p (q :: rest))
      rw [show a.intercalate (p :: q :: rest) = b.intercalate (p :: q :: rest) from heq] at ha
      simp only [List.length_cons, Nat.add_mul] at ha hb
      have hmul : (rest.length + 1) * a.length = (rest.length + 1) * b.length := by
        rw [Nat.add_mul, Nat.add_mul]
        omega
      exact Nat.eq_of_mul_eq_mul_left (Nat.succ_pos _) hmul
    simp only [List.intercalate_cons_cons, List.append_assoc] at heq
    exact List.append_inj_left (List.append_cancel_left heq) hlength

end

section

variable {c : Char}

theorem piecesFrom_of_notMem {cs : List Char} (h : c ∉ cs) : piecesFrom [c] 0 cs = [cs] := by
  induction cs with
  | nil => rfl
  | cons d ds ih =>
    rw [List.mem_cons, not_or] at h
    have hprefix : [c].isPrefixOf (d :: ds) = false := by simpa [List.isPrefixOf] using h.1
    rw [piecesFrom, hprefix, ih h.2]
    rfl

theorem piecesFrom_append (as bs : List Char) :
    piecesFrom [c] 0 (as ++ c :: bs) = piecesFrom [c] 0 as ++ piecesFrom [c] 0 bs := by
  induction as with
  | nil => simp [piecesFrom, List.isPrefixOf]
  | cons a as ih =>
    rw [List.cons_append, piecesFrom, piecesFrom]
    simp only [List.isPrefixOf, Bool.and_true, List.length_singleton, Nat.sub_self, ih]
    split
    · rfl
    · cases hpieces : piecesFrom [c] 0 as with
      | nil => exact absurd hpieces (piecesFrom_ne_nil _ _ _)
      | cons p ps => rfl

end

end SchemaStructs
