import Mathlib.Tactic.SplitIfs
import SchemaStructs.Text.Digit
import SchemaStructs.Text.Literal

/-!
Reading literals. The text of a literal is found again whatever stands behind it: an octal escape
takes all the digits that it can, but as it is written with three, none of the text is taken.
-/

set_option autoImplicit false

namespace SchemaStructs.Literal

def simple? : Char → Option Char
  | '"' => some '"'
  | '\\' => some '\\'
  | 'n' => some '\n'
  | 'r' => some '\r'
  | 't' => some '\t'
  | _ => none

def octalDigits (cs : List Char) : List Char := (cs.take 3).takeWhile (Digit.isIn 8)

def readEscape : List Char → Option (Char × List Char)
  | [] => none
  | c :: cs =>
    match simple? c with
    | some d => some (d, cs)
    | none =>
      match octalDigits (c :: cs) with
      | [] => none
      | digits =>
        (Digit.number? 8 digits).map fun n => (Char.ofNat n, (c :: cs).drop digits.length)

theorem length_readEscape {cs rest : List Char} {d : Char}
    (h : readEscape cs = some (d, rest)) : rest.length < cs.length := by
  cases cs with
  | nil => cases h
  | cons c cs =>
    rw [readEscape] at h
    split at h
    · cases h
      simp
    · split at h
      · cases h
      · next hdigits =>
        obtain ⟨n, -, hn⟩ := Option.map_eq_some_iff.1 h
        cases hn
        have hpos := List.length_pos_iff.2 hdigits
        rw [List.length_drop, List.length_cons]
        omega

def readBody : List Char → Option (List Char × List Char)
  | [] => none
  | c :: cs =>
    if c = '"' then some ([], cs)
    else if c = '\n' then none
    else if c = '\\' then
      match h : readEscape cs with
      | none => none
      | some (d, rest) =>
        have : rest.length < cs.length := length_readEscape h
        (readBody rest).map (Prod.map (d :: ·) id)
    else (readBody cs).map (Prod.map (c :: ·) id)
termination_by cs => cs.length

def read? (text : String) : Option (String × String) :=
  match text.toList with
  | '"' :: cs => (readBody cs).map (Prod.map String.ofList String.ofList)
  | _ => none

theorem readBody_backslash {cs rest : List Char} {d : Char} (h : readEscape cs = some (d, rest)) :
    readBody ('\\' :: cs) = (readBody rest).map (Prod.map (d :: ·) id) := by
  rw [readBody]
  simp only [Char.reduceEq, if_false, if_true]
  split
  · next hnone =>
    rw [h] at hnone
    cases hnone
  · next hsome =>
    rw [h] at hsome
    cases hsome
    rfl

theorem readBody_plain {c : Char} (hquote : c ≠ '"') (hescape : c ≠ '\\') (hline : c ≠ '\n')
    (cs : List Char) : readBody (c :: cs) = (readBody cs).map (Prod.map (c :: ·) id) := by
  rw [readBody]
  simp [hquote, hescape, hline]

section

variable (n : Nat)

@[simp] theorem value?_octalDigit : Digit.value? (octalDigit n) = some (n % 8) := by
  have h : ∀ k < 8, Digit.value? (Char.ofNat (k + 48)) = some k := by decide
  exact h (n % 8) (Nat.mod_lt n (by decide))

@[simp] theorem isIn_octalDigit : Digit.isIn 8 (octalDigit n) = true := by
  simp [Digit.isIn, Nat.mod_lt]

@[simp] theorem simple?_octalDigit : simple? (octalDigit n) = none := by
  have h : ∀ k < 8, simple? (Char.ofNat (k + 48)) = none := by decide
  exact h (n % 8) (Nat.mod_lt n (by decide))

end

/-- The three digits are all that is taken, whether or not a digit follows them. -/
@[simp] theorem octalDigits_octal (a b c : Nat) (cs : List Char) :
    octalDigits (octalDigit a :: octalDigit b :: octalDigit c :: cs) =
      [octalDigit a, octalDigit b, octalDigit c] := by
  simp [octalDigits]

example : octalDigits ['0', '0', '7', '7'] = ['0', '0', '7'] := by decide

theorem number?_octal {n : Nat} (h : n < 512) :
    Digit.number? 8 [octalDigit (n / 64), octalDigit (n / 8), octalDigit n] = some n := by
  simp [Digit.number?, Digit.number]
  omega

theorem readEscape_octal {n : Nat} (h : n < 512) (cs : List Char) :
    readEscape ((octal n).tail ++ cs) = some (Char.ofNat n, cs) := by
  simp [octal, readEscape, number?_octal h]

theorem toNat_lt_of_isControl {c : Char} (h : isControl c = true) : c.toNat < 512 := by
  simp only [isControl, Bool.or_eq_true, decide_eq_true_eq, beq_iff_eq] at h
  omega

/-- What stands for a character is read as it, and all that follows stays to be read. -/
@[simp] theorem readBody_escape (c : Char) (cs : List Char) :
    readBody (escape c ++ cs) = (readBody cs).map (Prod.map (c :: ·) id) := by
  unfold escape
  split_ifs with hquote hescape hline hreturn htab hcontrol
  · rw [hquote]
    exact readBody_backslash rfl
  · rw [hescape]
    exact readBody_backslash rfl
  · rw [hline]
    exact readBody_backslash rfl
  · rw [hreturn]
    exact readBody_backslash rfl
  · rw [htab]
    exact readBody_backslash rfl
  · have hread := readEscape_octal (toNat_lt_of_isControl hcontrol) cs
    rw [Char.ofNat_toNat] at hread
    exact readBody_backslash hread
  · exact readBody_plain hquote hescape hline cs

@[simp] theorem readBody_body (s rest : List Char) :
    readBody (body s ++ '"' :: rest) = some (s, rest) := by
  induction s with
  | nil =>
    rw [body, List.flatMap_nil, List.nil_append, readBody]
    rfl
  | cons c s ih =>
    rw [body, List.flatMap_cons, ← body, List.append_assoc, readBody_escape, ih]
    rfl

@[simp] theorem read?_append (s t : String) : read? (quote s ++ t) = some (s, t) := by
  have hchars : (quote s ++ t).toList = '"' :: (body s.toList ++ '"' :: t.toList) := by
    simp [quote, String.toList_append]
  simp [read?, hchars]

/-- Reading a literal gives its text and leaves what follows, so different texts have different
literals. -/
theorem quote_readable :
    (∀ s t : String, read? (quote s ++ t) = some (s, t)) ∧ Function.Injective quote := by
  refine ⟨read?_append, fun s s' h => ?_⟩
  have hread := read?_append s ""
  rw [h, read?_append s' ""] at hread
  simpa using hread.symm

end SchemaStructs.Literal
