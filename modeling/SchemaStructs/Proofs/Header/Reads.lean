import SchemaStructs.Proofs.Header.Scanner

set_option autoImplicit false

namespace SchemaStructs

open Scan

/-- Scanned from code, the text ends in code, and takes the closers `o` to the closers `o'`
whatever stands behind them. -/
def Reads (o : List Char) (text : String) (o' : List Char) : Prop :=
  ∀ rest, scan text.toList ⟨.code, o ++ rest⟩ = some ⟨.code, o' ++ rest⟩

/-- The text is code in itself and closes what it opens. -/
abbrev Neutral (text : String) : Prop := Reads [] text []

namespace Reads

variable {o o' o'' : List Char} {a b : String}

theorem text {cs : List Char} (o' : List Char) (h : scan cs ⟨.code, o⟩ = some ⟨.code, o'⟩) :
    Reads o (String.ofList cs) o' := by
  intro rest
  rw [String.toList_ofList]
  exact scan_frame h rest

theorem same {cs : List Char} (h : scan cs ⟨.code, o⟩ = some ⟨.code, o⟩) :
    Reads o (String.ofList cs) o := text o h

theorem append (h : Reads o a o') (h' : Reads o' b o'') : Reads o (a ++ b) o'' := by
  intro rest
  rw [String.toList_append, scan_append, h rest]
  exact h' rest

theorem comment {opening closing : List Char} (o' : List Char)
    (hopening : scan opening ⟨.code, o⟩ = some ⟨.lineComment, o'⟩)
    (ha : ∀ c ∈ a.toList, c ≠ '\n' ∧ c ≠ '\\')
    (hclosing : scan closing ⟨.lineComment, o'⟩ = some ⟨.code, o''⟩) :
    Reads o (String.ofList opening ++ a ++ String.ofList closing) o'' := by
  intro rest
  have hbefore : scan opening ⟨.code, o ++ rest⟩ = some ⟨.lineComment, o' ++ rest⟩ :=
    scan_frame hopening rest
  have hafter : scan closing ⟨.lineComment, o' ++ rest⟩ = some ⟨.code, o'' ++ rest⟩ :=
    scan_frame hclosing rest
  rw [String.toList_append, String.toList_append, String.toList_ofList, String.toList_ofList,
    scan_append, scan_append, hbefore, Option.bind_some, scan_lineComment ha, Option.bind_some,
    hafter]

end Reads

namespace Neutral

variable {a b sep : String} {l : List String}

theorem under (h : Neutral a) (o : List Char) : Reads o a o := fun rest => h (o ++ rest)

theorem empty : Neutral "" := fun _ => rfl

theorem join (h : ∀ a ∈ l, Neutral a) : Neutral (String.join l) := by
  induction l with
  | nil => exact empty
  | cons a l ih =>
    rw [List.forall_mem_cons] at h
    rw [String.join_cons]
    exact Reads.append h.1 (ih h.2)

theorem intercalate (hsep : Neutral sep) (h : ∀ a ∈ l, Neutral a) :
    Neutral (sep.intercalate l) := by
  induction l with
  | nil => exact empty
  | cons a l ih =>
    rw [List.forall_mem_cons] at h
    cases l with
    | nil =>
      rw [String.intercalate_singleton]
      exact h.1
    | cons b l =>
      rw [String.intercalate_cons_cons]
      exact Reads.append (Reads.append h.1 hsep) (ih h.2)

theorem of_plain (h : ∀ c ∈ a.toList, isPlain c = true) : Neutral a := fun rest => scan_plain h rest

theorem of_isWord (h : IsWord a) : Neutral a := of_plain fun c hc => isPlain_of_isPart (h c hc)

theorem quote (s : String) : Neutral (Literal.quote s) := fun rest => scan_quote s rest

end Neutral

end SchemaStructs
