import Mathlib.Tactic.SplitIfs
import SchemaStructs.Proofs.Text.Word

/-!
A scanner of C++ text. It knows code, comments and string literals, and it refuses a text in which
a literal runs over the end of its line, brackets do not match, or code is not ASCII. A backslash
at the end of a line, with or without blanks behind it, joins the next line to it. Within a block
comment that can only matter between an asterisk and a slash; elsewhere the scanner refuses it, and
it refuses single quotes wherever they could change what follows.
-/

set_option autoImplicit false

namespace SchemaStructs

inductive Mode where
  | code
  /-- Behind a slash that may begin a comment. -/
  | slash
  | lineComment
  | blockComment
  /-- Behind an asterisk that may end the comment. -/
  | star
  /-- Behind such an asterisk, a backslash and perhaps blanks. -/
  | joint
  /-- Behind a joint that ends with a carriage return; a line feed may belong to it. -/
  | joined
  | literal
  /-- Behind a backslash within a literal. -/
  | escape
  deriving DecidableEq, Repr

inductive Move where
  | go (mode : Mode)
  /-- Opens a bracket that the character will close. -/
  | push (closer : Char)
  | pop (closer : Char)
  deriving DecidableEq, Repr

/-- Where the scanner is, and the brackets that are still to come, next one first. -/
structure Scan where
  mode : Mode
  closers : List Char
  deriving DecidableEq, Repr

namespace Scan

def closer? (c : Char) : Option Char :=
  if c = '(' then some ')'
  else if c = '[' then some ']'
  else if c = '\x7b' then some '\x7d'
  else none

def isCloser (c : Char) : Bool := c == ')' || c == ']' || c == '\x7d'

def isPlain (c : Char) : Bool :=
  c.toNat < 128 && c != '/' && c != '"' && c != '\'' && c != '\\' && (closer? c).isNone &&
    !isCloser c

def isLineEnd (c : Char) : Bool := c == '\n' || c == '\r'

def isBlank (c : Char) : Bool := c == ' ' || c == '\t' || c == '\x0b' || c == '\x0c'

end Scan

namespace Mode

open Scan

def moveCode (c : Char) : Option Move :=
  if c = '/' then some (.go .slash)
  else if c = '"' then some (.go .literal)
  else
    match closer? c with
    | some d => some (.push d)
    | none =>
      if isCloser c then some (.pop c)
      else if isPlain c then some (.go .code)
      else none

def moveStar (c : Char) : Mode :=
  if c = '/' then .code
  else if c = '*' then .star
  else if c = '\\' then .joint
  else .blockComment

def moveJoint (c : Char) : Mode :=
  if isBlank c then .joint
  else if c = '\n' then .star
  else if c = '\r' then .joined
  else if c = '*' then .star
  else .blockComment

def move : Mode → Char → Option Move
  | .code, c => moveCode c
  | .slash, c =>
    if c = '/' then some (.go .lineComment)
    else if c = '*' then some (.go .blockComment)
    else moveCode c
  | .lineComment, c =>
    if c = '\n' then some (.go .code)
    else if c = '\\' then none
    else some (.go .lineComment)
  | .blockComment, c => some (.go (if c = '*' then .star else .blockComment))
  | .star, c => some (.go (moveStar c))
  | .joint, c => some (.go (moveJoint c))
  | .joined, c => some (.go (if c = '\n' then .star else moveStar c))
  | .literal, c =>
    if c = '"' then some (.go .code)
    else if c = '\\' then some (.go .escape)
    else if isLineEnd c then none
    else some (.go .literal)
  | .escape, c => if isLineEnd c then none else some (.go .literal)

end Mode

def Move.apply (closers : List Char) : Move → Option Scan
  | .go mode => some ⟨mode, closers⟩
  | .push d => some ⟨.code, d :: closers⟩
  | .pop c =>
    match closers with
    | d :: closers => if c = d then some ⟨.code, closers⟩ else none
    | [] => none

namespace Scan

def step (s : Scan) (c : Char) : Option Scan := (s.mode.move c).bind (Move.apply s.closers)

def scan (text : List Char) (s : Scan) : Option Scan := text.foldlM step s

theorem step_frame {s t : Scan} {c : Char} (h : step s c = some t) (rest : List Char) :
    step ⟨s.mode, s.closers ++ rest⟩ c = some ⟨t.mode, t.closers ++ rest⟩ := by
  obtain ⟨m, hm, happly⟩ := Option.bind_eq_some_iff.1 h
  simp only [step, hm, Option.bind_some]
  cases m with
  | go mode =>
    cases happly
    rfl
  | push d =>
    cases happly
    rfl
  | pop c =>
    cases hclosers : s.closers with
    | nil =>
      rw [hclosers] at happly
      cases happly
    | cons d closers =>
      simp only [hclosers, Move.apply] at happly
      split at happly
      · next heq =>
        cases happly
        simp only [Move.apply, List.cons_append, if_pos heq]
      · cases happly

/-- More brackets that are open around a text do not change how it is scanned. -/
theorem scan_frame {text : List Char} {s t : Scan} (h : scan text s = some t)
    (rest : List Char) :
    scan text ⟨s.mode, s.closers ++ rest⟩ = some ⟨t.mode, t.closers ++ rest⟩ := by
  induction text generalizing s with
  | nil =>
    cases h
    rfl
  | cons c text ih =>
    obtain ⟨mid, hstep, hrest⟩ := Option.bind_eq_some_iff.1 h
    rw [scan, List.foldlM_cons, step_frame hstep rest]
    exact ih hrest

theorem scan_cons (c : Char) (text : List Char) (s : Scan) :
    scan (c :: text) s = (step s c).bind (scan text) := List.foldlM_cons

@[simp] theorem scan_append (a b : List Char) (s : Scan) :
    scan (a ++ b) s = (scan a s).bind (scan b) := List.foldlM_append

theorem step_plain {c : Char} (h : isPlain c = true) (closers : List Char) :
    step ⟨.code, closers⟩ c = some ⟨.code, closers⟩ := by
  have hmove : Mode.moveCode c = some (.go .code) := by
    have hfacts := h
    simp only [isPlain, Bool.and_eq_true, bne_iff_ne, Option.isNone_iff_eq_none,
      Bool.not_eq_true'] at hfacts
    obtain ⟨⟨⟨⟨⟨⟨-, hslash⟩, hquote⟩, -⟩, -⟩, hopens⟩, hcloses⟩ := hfacts
    simp [Mode.moveCode, hslash, hquote, hopens, hcloses, h]
  simp only [step, Mode.move, hmove, Option.bind_some, Move.apply]

theorem scan_plain {text : List Char} (h : ∀ c ∈ text, isPlain c = true) (closers : List Char) :
    scan text ⟨.code, closers⟩ = some ⟨.code, closers⟩ := by
  induction text with
  | nil => rfl
  | cons c text ih =>
    rw [List.forall_mem_cons] at h
    rw [scan_cons, step_plain h.1, Option.bind_some]
    exact ih h.2

theorem isPlain_of_isPart {c : Char} (h : Identifier.isPart c = true) : isPlain c = true :=
  forall_ascii (p := fun c => Identifier.isPart c = true → isPlain c = true) (by decide +kernel)
    (toNat_lt_of_isPart h) h

theorem toNat_lt_of_moveCode {c : Char} {m : Move} (h : Mode.moveCode c = some m) :
    c.toNat < 128 := by
  unfold Mode.moveCode at h
  split at h
  · next heq =>
    rw [heq]
    decide
  · split at h
    · next heq =>
      rw [heq]
      decide
    · split at h
      · next hopens =>
        unfold closer? at hopens
        split_ifs at hopens with heq heq heq
        all_goals
          rw [heq]
          decide
      · split at h
        · next hcloses =>
          simp only [isCloser, Bool.or_eq_true, beq_iff_eq] at hcloses
          rcases hcloses with (rfl | rfl) | rfl <;> decide
        · split at h
          · next hplain =>
            simp only [isPlain, Bool.and_eq_true, decide_eq_true_eq] at hplain
            exact hplain.1.1.1.1.1.1
          · cases h

/-- The character fits its place: code is ASCII, a closing bracket is the one that comes next, and
no line ends within a literal. -/
structure Fits (s : Scan) (c : Char) : Prop where
  ascii : s.mode = .code ∨ s.mode = .slash → c.toNat < 128
  closes : s.mode = .code ∨ s.mode = .slash → isCloser c = true → s.closers.head? = some c
  line : s.mode = .literal ∨ s.mode = .escape → isLineEnd c = false

theorem move_of_isCloser {m : Mode} {c : Char} (hm : m = .code ∨ m = .slash)
    (hc : isCloser c = true) : m.move c = some (.pop c) := by
  simp only [isCloser, Bool.or_eq_true, beq_iff_eq] at hc
  rcases hm with rfl | rfl <;> rcases hc with (rfl | rfl) | rfl <;> rfl

theorem toNat_lt_of_move {m : Mode} {c : Char} {next : Move} (hm : m = .code ∨ m = .slash)
    (h : m.move c = some next) : c.toNat < 128 := by
  rcases hm with rfl | rfl
  · exact toNat_lt_of_moveCode h
  · rw [Mode.move] at h
    split_ifs at h with hslash hstar
    · rw [hslash]
      decide
    · rw [hstar]
      decide
    · exact toNat_lt_of_moveCode h

theorem isLineEnd_of_move {m : Mode} {c : Char} {next : Move} (hm : m = .literal ∨ m = .escape)
    (h : m.move c = some next) : isLineEnd c = false := by
  rcases hm with rfl | rfl
  · rw [Mode.move] at h
    split_ifs at h with hquote hescape hline
    · rw [hquote]
      decide
    · rw [hescape]
      decide
    · simpa using hline
  · rw [Mode.move] at h
    split_ifs at h with hline
    simpa using hline

theorem fits_of_step {s t : Scan} {c : Char} (h : step s c = some t) : s.Fits c := by
  obtain ⟨m, hm, happly⟩ := Option.bind_eq_some_iff.1 h
  refine ⟨fun hmode => toNat_lt_of_move hmode hm, fun hmode hcloser => ?_,
    fun hmode => isLineEnd_of_move hmode hm⟩
  rw [move_of_isCloser hmode hcloser, Option.some.injEq] at hm
  subst hm
  cases hclosers : s.closers with
  | nil =>
    rw [hclosers] at happly
    cases happly
  | cons d closers =>
    simp only [hclosers, Move.apply] at happly
    split at happly
    · next heq => rw [heq, List.head?_cons]
    · cases happly

theorem fits_of_scan {text : List Char} {s t : Scan} (h : scan text s = some t)
    {before after : List Char} {c : Char} (htext : text = before ++ c :: after) :
    ∃ mid, scan before s = some mid ∧ mid.Fits c := by
  subst htext
  rw [scan_append] at h
  obtain ⟨mid, hbefore, hrest⟩ := Option.bind_eq_some_iff.1 h
  obtain ⟨next, hstep, -⟩ := Option.bind_eq_some_iff.1 hrest
  exact ⟨mid, hbefore, fits_of_step hstep⟩

example : scan ['"', '\n', '"'] ⟨.code, []⟩ = none := by decide

example : scan ['(', '[', ')', ']'] ⟨.code, []⟩ = none := by decide

theorem scan_lineComment {text : List Char} (h : ∀ c ∈ text, c ≠ '\n' ∧ c ≠ '\\')
    (closers : List Char) : scan text ⟨.lineComment, closers⟩ = some ⟨.lineComment, closers⟩ := by
  induction text with
  | nil => rfl
  | cons c text ih =>
    rw [List.forall_mem_cons] at h
    have hstep : step ⟨.lineComment, closers⟩ c = some ⟨.lineComment, closers⟩ := by
      simp [step, Mode.move, h.1.1, h.1.2, Move.apply]
    rw [scan_cons, hstep, Option.bind_some]
    exact ih h.2

theorem step_literal {c : Char} (hquote : c ≠ '"') (hescape : c ≠ '\\')
    (hline : isLineEnd c = false) (closers : List Char) :
    step ⟨.literal, closers⟩ c = some ⟨.literal, closers⟩ := by
  simp [step, Mode.move, hquote, hescape, hline, Move.apply]

theorem octalDigit_mem (n : Nat) :
    Literal.octalDigit n ∈ ['0', '1', '2', '3', '4', '5', '6', '7'] := by
  have h : ∀ k < 8, Char.ofNat (k + 48) ∈ ['0', '1', '2', '3', '4', '5', '6', '7'] := by decide
  exact h (n % 8) (Nat.mod_lt n (by decide))

theorem scan_octal (n : Nat) (closers : List Char) :
    scan (Literal.octal n) ⟨.literal, closers⟩ = some ⟨.literal, closers⟩ := by
  have hdigit : ∀ d ∈ ['0', '1', '2', '3', '4', '5', '6', '7'],
      d ≠ '"' ∧ d ≠ '\\' ∧ isLineEnd d = false := by simp [isLineEnd]
  obtain ⟨-, -, hline⟩ := hdigit _ (octalDigit_mem (n / 64))
  obtain ⟨hquote', hescape', hline'⟩ := hdigit _ (octalDigit_mem (n / 8))
  obtain ⟨hquote'', hescape'', hline''⟩ := hdigit _ (octalDigit_mem n)
  have hbackslash : step ⟨.literal, closers⟩ '\\' = some ⟨.escape, closers⟩ := rfl
  have hfirst : step ⟨.escape, closers⟩ (Literal.octalDigit (n / 64)) =
      some ⟨.literal, closers⟩ := by
    simp [step, Mode.move, hline, Move.apply]
  simp only [Literal.octal, scan_cons, hbackslash, hfirst, Option.bind_some,
    step_literal hquote' hescape' hline', step_literal hquote'' hescape'' hline'']
  rfl

/-- What stands for a character in a literal neither closes the literal nor ends its line. -/
theorem scan_escape (c : Char) (closers : List Char) :
    scan (Literal.escape c) ⟨.literal, closers⟩ = some ⟨.literal, closers⟩ := by
  unfold Literal.escape
  split_ifs with hquote hescape hline hreturn htab hcontrol
  · rfl
  · rfl
  · rfl
  · rfl
  · rfl
  · exact scan_octal _ _
  · have hend : isLineEnd c = false := by simp [isLineEnd, hline, hreturn]
    rw [scan_cons, step_literal hquote hescape hend]
    rfl

theorem scan_body (cs : List Char) (closers : List Char) :
    scan (Literal.body cs) ⟨.literal, closers⟩ = some ⟨.literal, closers⟩ := by
  induction cs with
  | nil => rfl
  | cons c cs ih =>
    simpa [Literal.body, scan_escape] using ih

@[simp] theorem scan_quote (s : String) (closers : List Char) :
    scan (Literal.quote s).toList ⟨.code, closers⟩ = some ⟨.code, closers⟩ := by
  have hopens : step ⟨.code, closers⟩ '"' = some ⟨.literal, closers⟩ := rfl
  rw [Literal.quote, String.toList_ofList, List.cons_append, scan_cons, hopens, Option.bind_some,
    scan_append, scan_body]
  rfl

end Scan

end SchemaStructs
