import Mathlib.Data.List.Induction
import SchemaStructs.Proofs.Header.Reads
import SchemaStructs.Proofs.Text.Split

set_option autoImplicit false

namespace SchemaStructs

open Scan

/-- A backslash at the end of a line, which joins the next line to it. -/
def IsJoint (text : List Char) : Prop :=
  ∃ blanks lineEnd, (∀ c ∈ blanks, isBlank c = true) ∧
    lineEnd ∈ [['\n'], ['\r'], ['\r', '\n']] ∧ text = '\\' :: (blanks ++ lineEnd)

def Joints (text : List Char) : Prop :=
  ∃ joints : List (List Char), (∀ j ∈ joints, IsJoint j) ∧ text = joints.flatten

/-- The text closes a block comment: somewhere only joints stand between an asterisk and a slash. -/
def EndsComment (text : List Char) : Prop :=
  ∃ before joints after, text = before ++ '*' :: (joints ++ '/' :: after) ∧ Joints joints

/-- The name closes the comment that it stands in, though each `*/` in it is broken up. -/
def ClosesComment (name : List Char) : Prop :=
  ∃ before joints after, name = before ++ '*' :: (joints ++ '/' :: after) ∧ joints ≠ [] ∧
    Joints joints

theorem IsJoint.star_notMem {j : List Char} (h : IsJoint j) : '*' ∉ j := by
  obtain ⟨blanks, lineEnd, hblanks, hend, rfl⟩ := h
  have hblank : '*' ∉ blanks := fun hmem => absurd (hblanks '*' hmem) (by decide)
  simp only [List.mem_cons, List.not_mem_nil, or_false] at hend
  rcases hend with rfl | rfl | rfl <;> simpa using hblank

namespace Joints

theorem nil : Joints [] := ⟨[], by simp⟩

theorem snoc {joints j : List Char} (h : Joints joints) (hj : IsJoint j) :
    Joints (joints ++ j) := by
  obtain ⟨js, hjs, rfl⟩ := h
  exact ⟨js ++ [j], by simpa [or_imp, forall_and] using ⟨hjs, hj⟩, by simp⟩

theorem eq_nil_or_cons {joints : List Char} (h : Joints joints) :
    joints = [] ∨ ∃ rest, joints = '\\' :: rest := by
  obtain ⟨js, hjs, rfl⟩ := h
  cases js with
  | nil => exact .inl rfl
  | cons j js =>
    obtain ⟨blanks, lineEnd, -, -, rfl⟩ := hjs j List.mem_cons_self
    exact .inr ⟨_, rfl⟩

theorem star_notMem {joints : List Char} (h : Joints joints) : '*' ∉ joints := by
  obtain ⟨js, hjs, rfl⟩ := h
  rw [List.mem_flatten]
  rintro ⟨j, hj, hstar⟩
  exact (hjs j hj).star_notMem hstar

end Joints

namespace Mode

def isComment : Mode → Bool
  | .blockComment | .star | .joint | .joined => true
  | _ => false

def stay? (m : Mode) (c : Char) : Option Mode :=
  match m.move c with
  | some (.go next) => if next.isComment then some next else none
  | _ => none

def stay (m : Mode) (text : List Char) : Option Mode := text.foldlM stay? m

variable {m m' : Mode} {text : List Char} {c : Char}

theorem scan_of_stay? (h : m.stay? c = some m') (closers : List Char) :
    step ⟨m, closers⟩ c = some ⟨m', closers⟩ ∧ m'.isComment = true := by
  unfold stay? at h
  split at h
  · next next hmove =>
    split at h
    · next hcomment =>
      cases h
      exact ⟨by simp [step, hmove, Move.apply], hcomment⟩
    · cases h
  · cases h

theorem scan_of_stay (hm : m.isComment = true) (h : m.stay text = some m') (closers : List Char) :
    scan text ⟨m, closers⟩ = some ⟨m', closers⟩ ∧ m'.isComment = true := by
  induction text generalizing m with
  | nil =>
    cases h
    exact ⟨rfl, hm⟩
  | cons c text ih =>
    obtain ⟨mid, hstep, hrest⟩ := Option.bind_eq_some_iff.1 h
    obtain ⟨hscan, hmid⟩ := scan_of_stay? hstep closers
    rw [scan_cons, hscan]
    exact ih hmid hrest

@[simp] theorem stay_nil (m : Mode) : m.stay [] = some m := rfl

@[simp] theorem stay_cons (m : Mode) (c : Char) (text : List Char) :
    m.stay (c :: text) = (m.stay? c).bind (stay · text) := List.foldlM_cons

@[simp] theorem stay_append (m : Mode) (a b : List Char) :
    m.stay (a ++ b) = (m.stay a).bind (stay · b) := List.foldlM_append

/-- What the text is that has led to a mode within the comment. -/
def Behind : Mode → List Char → Prop
  | .blockComment, _ => True
  | .star, text => ∃ before joints, text = before ++ '*' :: joints ∧ Joints joints
  | .joint, text => ∃ before joints blanks, text = before ++ '*' :: (joints ++ '\\' :: blanks) ∧
      Joints joints ∧ ∀ c ∈ blanks, isBlank c = true
  | .joined, text => ∃ before joints blanks,
      text = before ++ '*' :: (joints ++ '\\' :: (blanks ++ ['\r'])) ∧
        Joints joints ∧ ∀ c ∈ blanks, isBlank c = true
  | _, _ => False

theorem isComment_of_behind (h : m.Behind text) : m.isComment = true := by
  cases m <;> first | rfl | exact h.elim

theorem behind_star (text : List Char) : star.Behind (text ++ ['*']) := ⟨text, [], rfl, .nil⟩

/-- A joint that is complete stands behind the asterisk like those before it. -/
theorem behind_star_of_joint {before joints blanks : List Char} (lineEnd : List Char)
    (hjoints : Joints joints) (hblanks : ∀ c ∈ blanks, isBlank c = true)
    (hend : lineEnd ∈ [['\n'], ['\r'], ['\r', '\n']]) :
    star.Behind (before ++ '*' :: (joints ++ '\\' :: (blanks ++ lineEnd))) :=
  ⟨before, _, rfl, hjoints.snoc ⟨blanks, lineEnd, hblanks, hend, rfl⟩⟩

theorem behind_star_of_joined (h : joined.Behind text) : star.Behind text := by
  obtain ⟨before, joints, blanks, rfl, hjoints, hblanks⟩ := h
  exact behind_star_of_joint _ hjoints hblanks (by simp)

theorem behind_star_of_feed (h : joined.Behind text) : star.Behind (text ++ ['\n']) := by
  obtain ⟨before, joints, blanks, rfl, hjoints, hblanks⟩ := h
  simpa using behind_star_of_joint ['\r', '\n'] hjoints hblanks (by simp)

theorem behind_moveStar (h : star.Behind text) (hc : c ≠ '/') :
    (moveStar c).Behind (text ++ [c]) := by
  rw [moveStar, if_neg hc]
  split_ifs with hstar hjoint
  · rw [hstar]
    exact behind_star text
  · obtain ⟨before, joints, rfl, hjoints⟩ := h
    exact ⟨before, joints, [], by simp [hjoint], hjoints, by simp⟩
  · trivial

theorem behind_moveJoint (h : joint.Behind text) : (moveJoint c).Behind (text ++ [c]) := by
  obtain ⟨before, joints, blanks, rfl, hjoints, hblanks⟩ := h
  unfold moveJoint
  split_ifs with hblank hfeed hreturn hstar
  · refine ⟨before, joints, blanks ++ [c], by simp, hjoints, ?_⟩
    simpa [or_imp, forall_and] using ⟨hblanks, hblank⟩
  · simpa [hfeed] using behind_star_of_joint ['\n'] hjoints hblanks (by simp)
  · exact ⟨before, joints, blanks, by simp [hreturn], hjoints, hblanks⟩
  · rw [hstar]
    exact behind_star _
  · trivial

theorem exists_stay? (h : m.Behind text) (hends : ¬ EndsComment (text ++ [c])) :
    ∃ m', m.stay? c = some m' ∧ m'.Behind (text ++ [c]) := by
  have hslash : star.Behind text → c ≠ '/' := by
    rintro ⟨before, joints, rfl, hjoints⟩ rfl
    exact hends ⟨before, joints, [], by simp, hjoints⟩
  obtain ⟨m', hmove, hbehind⟩ : ∃ m', m.move c = some (.go m') ∧ m'.Behind (text ++ [c]) := by
    cases m with
    | blockComment =>
      refine ⟨_, rfl, ?_⟩
      split_ifs with hstar
      · rw [hstar]
        exact behind_star text
      · trivial
    | star => exact ⟨_, rfl, behind_moveStar h (hslash h)⟩
    | joint => exact ⟨_, rfl, behind_moveJoint h⟩
    | joined =>
      refine ⟨_, rfl, ?_⟩
      have hstar := behind_star_of_joined h
      split_ifs with hfeed
      · rw [hfeed]
        exact behind_star_of_feed h
      · exact behind_moveStar hstar (hslash hstar)
    | _ => exact h.elim
  exact ⟨m', by simp [stay?, hmove, isComment_of_behind hbehind], hbehind⟩

theorem exists_stay (h : ¬ EndsComment text) :
    ∃ m, blockComment.stay text = some m ∧ m.Behind text := by
  induction text using List.reverseRecOn with
  | nil => exact ⟨_, rfl, trivial⟩
  | append_singleton text c ih =>
    obtain ⟨mid, hstay, hbehind⟩ := ih fun ⟨before, joints, after, htext, hjoints⟩ =>
      h ⟨before, joints, after ++ [c], by simp [htext], hjoints⟩
    obtain ⟨m, hstep, hm⟩ := exists_stay? hbehind h
    exact ⟨m, by simp [hstay, hstep], hm⟩

/-- The comment may end with the next character. -/
def IsStar (m : Mode) : Prop := m = .star ∨ m = .joined

theorem scan_blanks {blanks : List Char} (h : ∀ c ∈ blanks, isBlank c = true)
    (closers : List Char) : scan blanks ⟨.joint, closers⟩ = some ⟨.joint, closers⟩ := by
  induction blanks with
  | nil => rfl
  | cons c blanks ih =>
    rw [List.forall_mem_cons] at h
    have hstep : step ⟨.joint, closers⟩ c = some ⟨.joint, closers⟩ := by
      simp [step, move, moveJoint, h.1, Move.apply]
    rw [scan_cons, hstep]
    exact ih h.2

theorem scan_joint {j : List Char} (h : IsJoint j) (hm : m.IsStar) (closers : List Char) :
    ∃ m', m'.IsStar ∧ scan j ⟨m, closers⟩ = some ⟨m', closers⟩ := by
  obtain ⟨blanks, lineEnd, hblanks, hend, rfl⟩ := h
  have hopen : step ⟨m, closers⟩ '\\' = some ⟨.joint, closers⟩ := by
    rcases hm with rfl | rfl <;> rfl
  rw [scan_cons, hopen, Option.bind_some, scan_append, scan_blanks hblanks, Option.bind_some]
  simp only [List.mem_cons, List.not_mem_nil, or_false] at hend
  rcases hend with rfl | rfl | rfl
  · exact ⟨.star, .inl rfl, rfl⟩
  · exact ⟨.joined, .inr rfl, rfl⟩
  · exact ⟨.star, .inl rfl, rfl⟩

theorem scan_joints {joints : List Char} (h : Joints joints) (hm : m.IsStar)
    (closers : List Char) :
    ∃ m', m'.IsStar ∧ scan joints ⟨m, closers⟩ = some ⟨m', closers⟩ := by
  obtain ⟨js, hjs, rfl⟩ := h
  induction js generalizing m with
  | nil => exact ⟨m, hm, rfl⟩
  | cons j js ih =>
    rw [List.forall_mem_cons] at hjs
    obtain ⟨mid, hmid, hscan⟩ := scan_joint hjs.1 hm closers
    rw [List.flatten_cons, scan_append, hscan]
    exact ih hmid hjs.2

theorem scan_end {joints : List Char} (h : Joints joints) (hm : m.isComment = true)
    (closers : List Char) :
    scan ('*' :: (joints ++ ['/'])) ⟨m, closers⟩ = some ⟨.code, closers⟩ := by
  have hstar : step ⟨m, closers⟩ '*' = some ⟨.star, closers⟩ := by
    cases m <;> first | rfl | cases hm
  obtain ⟨last, hlast, hscan⟩ := scan_joints h (.inl rfl : star.IsStar) closers
  rw [scan_cons, hstar, Option.bind_some, scan_append, hscan]
  rcases hlast with rfl | rfl <;> rfl

end Mode

def bannerName (cs : List Char) : List Char := replaceFrom ['*', '/'] ['*', ' ', '/'] 0 cs

section

variable {a b cs : List Char} {c : Char}

@[simp] theorem bannerName_close (cs : List Char) :
    bannerName ('*' :: '/' :: cs) = '*' :: ' ' :: '/' :: bannerName cs := rfl

theorem bannerName_cons (h : ¬ (c = '*' ∧ cs.head? = some '/')) :
    bannerName (c :: cs) = c :: bannerName cs := by
  have hclose : ¬ ['*', '/'].isPrefixOf (c :: cs) = true := by
    rw [List.isPrefixOf_iff_prefix]
    rintro ⟨rest, hrest⟩
    cases hrest
    exact h ⟨rfl, rfl⟩
  rw [bannerName, replaceFrom, if_neg hclose, bannerName]

theorem bannerName_append (h : '*' ∉ a) : bannerName (a ++ b) = a ++ bannerName b := by
  induction a with
  | nil => rfl
  | cons x a ih =>
    rw [List.mem_cons, not_or] at h
    rw [List.cons_append, bannerName_cons fun hclose => h.1 hclose.1.symm, ih h.2, List.cons_append]

theorem exists_of_bannerName_eq_cons (h : bannerName cs = c :: b) (hc : c ≠ '*') :
    ∃ rest, cs = c :: rest ∧ bannerName rest = b := by
  cases cs with
  | nil => cases h
  | cons x cs =>
    by_cases hclose : x = '*' ∧ cs.head? = some '/'
    · obtain ⟨rfl, hhead⟩ := hclose
      obtain ⟨rest, rfl⟩ := List.head?_eq_some_iff.1 hhead
      rw [bannerName_close, List.cons.injEq] at h
      exact absurd h.1.symm hc
    · rw [bannerName_cons hclose, List.cons.injEq] at h
      exact ⟨cs, by rw [h.1], h.2⟩

theorem exists_of_bannerName_eq (h : bannerName cs = a ++ '/' :: b) (ha : '*' ∉ a) :
    ∃ rest, cs = a ++ '/' :: rest := by
  induction a generalizing cs with
  | nil =>
    obtain ⟨rest, rfl, -⟩ := exists_of_bannerName_eq_cons h (by decide)
    exact ⟨rest, rfl⟩
  | cons x a ih =>
    rw [List.mem_cons, not_or] at ha
    obtain ⟨rest, rfl, hrest⟩ := exists_of_bannerName_eq_cons h (Ne.symm ha.1)
    obtain ⟨rest, rfl⟩ := ih hrest ha.2
    exact ⟨rest, rfl⟩

theorem endsComment_cons : EndsComment (c :: cs) ↔
    (c = '*' ∧ ∃ joints after, cs = joints ++ '/' :: after ∧ Joints joints) ∨ EndsComment cs := by
  constructor
  · rintro ⟨before, joints, after, htext, hjoints⟩
    cases before with
    | nil =>
      cases htext
      exact .inl ⟨rfl, joints, after, rfl, hjoints⟩
    | cons b before =>
      cases htext
      exact .inr ⟨before, joints, after, rfl, hjoints⟩
  · rintro (⟨rfl, joints, after, rfl, hjoints⟩ | ⟨before, joints, after, rfl, hjoints⟩)
    · exact ⟨[], joints, after, rfl, hjoints⟩
    · exact ⟨c :: before, joints, after, rfl, hjoints⟩

theorem ClosesComment.append (h : ClosesComment cs) (a : List Char) : ClosesComment (a ++ cs) := by
  obtain ⟨before, joints, after, rfl, hne, hjoints⟩ := h
  exact ⟨a ++ before, joints, after, (List.append_assoc ..).symm, hne, hjoints⟩

theorem isInfix_of_closesComment (h : ClosesComment cs) : ['*', '\\'] <:+: cs := by
  obtain ⟨before, joints, after, rfl, hne, hjoints⟩ := h
  obtain ⟨rest, rfl⟩ := hjoints.eq_nil_or_cons.resolve_left hne
  exact ⟨before, rest ++ '/' :: after, by simp⟩

@[simp] theorem endsComment_close : EndsComment ('*' :: ' ' :: '/' :: cs) ↔ EndsComment cs := by
  have hspace : ¬ ∃ joints after, ' ' :: '/' :: cs = joints ++ '/' :: after ∧ Joints joints := by
    rintro ⟨joints, after, h, hjoints⟩
    rcases hjoints.eq_nil_or_cons with rfl | ⟨rest, rfl⟩ <;> simp at h
  rw [endsComment_cons, or_iff_right fun h => hspace h.2, endsComment_cons,
    or_iff_right (by simp), endsComment_cons, or_iff_right (by simp)]

theorem closesComment_of_endsComment : ∀ cs : List Char,
    EndsComment (bannerName cs) → ClosesComment cs
  | [], ⟨before, joints, after, h, _⟩ => by simp [bannerName, replaceFrom] at h
  | c :: cs, h => by
    by_cases hclose : c = '*' ∧ cs.head? = some '/'
    · obtain ⟨rfl, hhead⟩ := hclose
      obtain ⟨rest, rfl⟩ := List.head?_eq_some_iff.1 hhead
      rw [bannerName_close, endsComment_close] at h
      exact (closesComment_of_endsComment rest h).append ['*', '/']
    · rw [bannerName_cons hclose] at h
      rcases endsComment_cons.1 h with ⟨rfl, joints, after, hrest, hjoints⟩ | h
      · obtain ⟨rest, rfl⟩ := exists_of_bannerName_eq hrest hjoints.star_notMem
        refine ⟨[], joints, rest, rfl, ?_, hjoints⟩
        rintro rfl
        exact hclose ⟨rfl, rfl⟩
      · exact (closesComment_of_endsComment cs h).append [c]

theorem endsComment_bannerName_cons (h : EndsComment (bannerName cs)) :
    EndsComment (bannerName (c :: cs)) := by
  by_cases hclose : c = '*' ∧ cs.head? = some '/'
  · obtain ⟨rfl, hhead⟩ := hclose
    obtain ⟨rest, rfl⟩ := List.head?_eq_some_iff.1 hhead
    rw [bannerName_cons (by simp)] at h
    rw [bannerName_close, endsComment_close]
    exact (endsComment_cons.1 h).resolve_left (by simp)
  · rw [bannerName_cons hclose]
    exact endsComment_cons.2 (.inr h)

theorem endsComment_of_closesComment (h : ClosesComment cs) : EndsComment (bannerName cs) := by
  obtain ⟨before, joints, after, rfl, hne, hjoints⟩ := h
  induction before with
  | nil =>
    obtain ⟨rest, rfl⟩ := hjoints.eq_nil_or_cons.resolve_left hne
    rw [List.nil_append, bannerName_cons (by simp), bannerName_append hjoints.star_notMem,
      bannerName_cons (by simp)]
    exact ⟨[], _, _, rfl, hjoints⟩
  | cons c before ih => exact endsComment_bannerName_cons ih

theorem endsComment_bannerName_iff : EndsComment (bannerName cs) ↔ ClosesComment cs :=
  ⟨closesComment_of_endsComment cs, endsComment_of_closesComment⟩

end

def bannerOpening : String :=
  "/**\n" ++
    " * This file is generated by structgen. Do not edit.\n" ++
    " *\n" ++
    " * Module: "

def bannerComment (moduleName : String) : String :=
  bannerOpening ++ substitute "*/" "* /" moduleName ++ "\n */"

theorem banner_eq (moduleName : String) :
    banner moduleName = bannerComment moduleName ++ "\n\n" := by
  have hend : "\n" ++ " */\n\n" = "\n */" ++ "\n\n" := String.toList_inj.1 (by simp)
  rw [bannerComment, String.append_assoc, ← hend, ← String.append_assoc]
  rfl

def bannerBody (moduleName : String) : List Char :=
  bannerOpening.toList.drop 2 ++ (bannerName moduleName.toList ++ ['\n', ' ', '*'])

theorem toList_bannerComment (moduleName : String) :
    (bannerComment moduleName).toList = '/' :: '*' :: (bannerBody moduleName ++ ['/']) := by
  have hopening : bannerOpening.toList = '/' :: '*' :: bannerOpening.toList.drop 2 := by
    simp [bannerOpening]
  have hname : (substitute "*/" "* /" moduleName).toList = bannerName moduleName.toList := by
    rw [toList_substitute]
    simp [bannerName]
  have hend : "\n */".toList = ['\n', ' ', '*'] ++ ['/'] := by simp
  rw [bannerComment, String.toList_append, String.toList_append, hopening, hname, hend, bannerBody]
  simp only [List.cons_append, List.append_assoc]

theorem stay_bannerOpening :
    Mode.stay .blockComment (bannerOpening.toList.drop 2) = some .blockComment := by decide +kernel

theorem stay_bannerBody {moduleName : String} (h : ¬ ClosesComment moduleName.toList) :
    Mode.stay .blockComment (bannerBody moduleName) = some .star := by
  obtain ⟨m, hname, hbehind⟩ := Mode.exists_stay (endsComment_bannerName_iff.not.2 h)
  have hclosing : m.stay ['\n', ' ', '*'] = some .star := by
    cases m <;> first | rfl | exact hbehind.elim
  rw [bannerBody, Mode.stay_append, stay_bannerOpening, Option.bind_some, Mode.stay_append, hname,
    Option.bind_some, hclosing]

/-- The first block comment opens with the banner and ends with its last line, not before. -/
structure BannerIsComment (moduleName : String) : Prop where
  /-- Every part of the comment that has its opening and not its end leaves the scanner within. -/
  within : ∀ part rest, (bannerComment moduleName).toList = part ++ rest → 2 ≤ part.length →
    rest ≠ [] → ∃ m : Mode, m.isComment = true ∧ scan part ⟨.code, []⟩ = some ⟨m, []⟩
  ends : scan (bannerComment moduleName).toList ⟨.code, []⟩ = some ⟨.code, []⟩

theorem bannerIsComment {moduleName : String} (h : ¬ ClosesComment moduleName.toList) :
    BannerIsComment moduleName := by
  have hopen : ∀ text : List Char, scan ('/' :: '*' :: text) ⟨.code, []⟩ =
      scan text ⟨.blockComment, []⟩ := fun text => rfl
  have hbody := stay_bannerBody h
  refine ⟨fun part rest hpart hlength hrest => ?_, ?_⟩
  · obtain ⟨a, b, part, rfl⟩ : ∃ a b part', part = a :: b :: part' := by
      match part, hlength with
      | a :: b :: part', _ => exact ⟨a, b, part', rfl⟩
    obtain ⟨rest, last, rfl⟩ := (List.eq_nil_or_concat rest).resolve_left hrest
    rw [toList_bannerComment, List.concat_eq_append, List.cons_append, List.cons_append,
      ← List.append_assoc, List.cons.injEq, List.cons.injEq] at hpart
    obtain ⟨rfl, rfl, hpart⟩ := hpart
    rw [(List.append_inj' hpart rfl).1, Mode.stay_append] at hbody
    obtain ⟨m, hm, -⟩ := Option.bind_eq_some_iff.1 hbody
    obtain ⟨hscan, hcomment⟩ := Mode.scan_of_stay rfl hm []
    exact ⟨m, hcomment, by rw [hopen, hscan]⟩
  · obtain ⟨hscan, -⟩ := Mode.scan_of_stay rfl hbody []
    rw [toList_bannerComment, hopen, scan_append, hscan]
    rfl

theorem BannerIsComment.not_closesComment {moduleName : String} (h : BannerIsComment moduleName) :
    ¬ ClosesComment moduleName.toList := by
  intro hcloses
  obtain ⟨before, joints, after, hname, hjoints⟩ := endsComment_of_closesComment hcloses
  -- The comment up to the asterisk in the name, and up to the slash behind it.
  have hpart : (bannerComment moduleName).toList =
      ('/' :: '*' :: (bannerOpening.toList.drop 2 ++ before)) ++ ('*' :: (joints ++ ['/'])) ++
        (after ++ ['\n', ' ', '*', '/']) := by
    simp [toList_bannerComment, bannerBody, hname]
  obtain ⟨m, hm, hscan⟩ := h.within ('/' :: '*' :: (bannerOpening.toList.drop 2 ++ before)) _
    (by rw [hpart, List.append_assoc]) (by simp) (by simp)
  obtain ⟨m', hm', hscan'⟩ := h.within _ _ hpart (by simp) (by simp)
  rw [scan_append, hscan, Option.bind_some, Mode.scan_end hjoints hm] at hscan'
  cases hscan'
  cases hm'

/-- The banner is one comment just if the name of the module does not close it. -/
theorem bannerIsComment_iff {moduleName : String} :
    BannerIsComment moduleName ↔ ¬ ClosesComment moduleName.toList :=
  ⟨BannerIsComment.not_closesComment, bannerIsComment⟩

end SchemaStructs
