import SchemaStructs.Proofs.Header.Reads
import SchemaStructs.Proofs.Header.Denotation

set_option autoImplicit false

namespace SchemaStructs

open Scan

theorem neutral_toString (n : Nat) : Neutral (toString n) := .of_isWord (.toString n)

namespace CppType

def ref? : CppType → Option String
  | .struct name | .shared name => some name
  | .vector element => element.ref?
  | .optional inner => inner.ref?
  | _ => none

def Named (t : CppType) : Prop := ∀ name, t.ref? = some name → IsWord name

theorem neutral_spelling (t : CppType) (h : t.Named) : Neutral t.spelling := by
  induction t with
  | bool | number | string | enum | dynamic => exact .same (by decide +kernel)
  | struct name => exact .of_isWord (h name rfl)
  | shared name =>
    have hname : Neutral name := .of_isWord (h name rfl)
    refine .append (.append (.same ?_) hname) (.same ?_) <;> decide +kernel
  | vector element ih => refine .append (.append (.same ?_) (ih h)) (.same ?_) <;> decide +kernel
  | optional inner ih => refine .append (.append (.same ?_) (ih h)) (.same ?_) <;> decide +kernel

end CppType

theorem Place.neutral_item (depth : Nat) : Neutral (Place.item depth).spelling := by
  refine .append (.same ?_) (neutral_toString depth)
  decide +kernel

theorem Place.neutral_target {p : Place} (h : Neutral p.spelling) :
    Neutral (Place.target p).spelling := by
  refine .append (.append (.text [')'] ?_) (h.under _)) (.text [] ?_) <;> decide +kernel

theorem neutral_itemsName (depth : Nat) : Neutral (itemsName depth) := by
  refine .append (.same ?_) (neutral_toString depth)
  decide +kernel

theorem neutral_loop {type initial list each : String} (depth : Nat) (htype : Neutral type)
    (hinitial : Neutral initial) (hlist : Neutral list) (heach : Neutral each) :
    Neutral (loop type initial list depth each) := by
  have hitems := neutral_itemsName depth
  have hitem := Place.neutral_item depth
  unfold loop
  dsimp only
  simp only [String.append_assoc]
  refine .append (.text ['\x7d'] ?_) <| .append (htype.under _) <| .append (.same ?_) <|
    .append (hitems.under _) <| .append (hinitial.under _) <| .append (.text [')', '\x7d'] ?_) <|
    .append (hitem.under _) <| .append (.same ?_) <| .append (hlist.under _) <|
    .append (.text ['\x7d', '\x7d'] ?_) <| .append (hitems.under _) <|
    .append (.text [')', '\x7d', '\x7d'] ?_) <| .append (heach.under _) <|
    .append (.text ['\x7d'] ?_) <| .append (hitems.under _) (.text [] ?_)
  all_goals decide +kernel

theorem neutral_checked {check names : String} {p : Place} (hcheck : Neutral check)
    (hp : Neutral p.spelling) (hnames : Neutral names) : Neutral (checked check p names) := by
  unfold checked
  simp only [String.append_assoc]
  refine .append (.same ?_) <| .append (hcheck.under _) <| .append (.text [')'] ?_) <|
    .append (hp.under _) <| .append (.same ?_) <| .append (hnames.under _) (.text [] ?_)
  all_goals decide +kernel

theorem neutral_list {l : List String} (h : ∀ a ∈ l, Neutral a) :
    Neutral (", ".intercalate l) := by
  refine .intercalate (.same ?_) h
  decide +kernel

namespace CppType

variable {names : String} {p : Place}

theorem neutral_reader (hnames : Neutral names) (t : CppType) (h : t.Named)
    (hp : Neutral p.spelling) (depth : Nat) : Neutral ((t.reader p depth).spelling names) := by
  induction t generalizing p depth with
  | bool | number | string =>
    refine neutral_checked (.same ?_) hp hnames
    decide +kernel
  | enum members =>
    have hmembers : Neutral (", ".intercalate (members.map Literal.quote)) :=
      neutral_list (List.forall_mem_map.2 fun m _ => .quote m)
    refine neutral_checked (.same ?_) hp ?_
    · decide +kernel
    · simp only [String.append_assoc]
      refine .append (.text ['\x7d'] ?_) <| .append (hmembers.under _) <|
        .append (.text [] ?_) hnames
      all_goals decide +kernel
  | dynamic =>
    rw [reader]
    unfold ReadExpr.spelling
    refine .append (.append (.text [')'] ?_) (hp.under _)) (.text [] ?_) <;> decide +kernel
  | struct name =>
    have hname : Neutral name := .of_isWord (h name rfl)
    rw [reader]
    unfold ReadExpr.spelling
    simp only [String.append_assoc]
    refine .append hname <| .append (.text [')'] ?_) <| .append (hp.under _) (.text [] ?_)
    all_goals decide +kernel
  | shared name =>
    have hname : Neutral name := .of_isWord (h name rfl)
    rw [reader]
    unfold ReadExpr.spelling
    simp only [String.append_assoc]
    refine .append (.same ?_) <| .append hname <| .append (.text [')'] ?_) <|
      .append (hname.under _) <| .append (.text [')', ')'] ?_) <| .append (hp.under _) (.text [] ?_)
    all_goals decide +kernel
  | vector element ih =>
    have helement := ih h (Place.neutral_item depth) (depth + 1)
    refine neutral_loop depth (neutral_spelling (.vector element) h) .empty
      (neutral_checked (.same ?_) hp hnames) helement
    decide +kernel
  | optional inner ih =>
    have htype : Neutral (CppType.optional inner).spelling := neutral_spelling (.optional inner) h
    have hvalue := ih h hp depth
    rw [reader]
    unfold ReadExpr.spelling
    simp only [String.append_assoc]
    refine .append (.text [')'] ?_) <| .append (hp.under _) <| .append (.same ?_) <|
      .append (htype.under _) <| .append (.same ?_) <| .append (htype.under _) <|
      .append (.text [')', ')'] ?_) <| .append (hvalue.under _) (.text [] ?_)
    all_goals decide +kernel

theorem neutral_writer (t : CppType) (hp : Neutral p.spelling) (depth : Nat) :
    Neutral (t.writer p depth).spelling := by
  induction t generalizing p depth with
  | bool | number | string | enum =>
    rw [writer]
    unfold WriteExpr.spelling
    refine .append (.append (.text [')'] ?_) (hp.under _)) (.text [] ?_) <;> decide +kernel
  | dynamic => exact hp
  | struct name =>
    refine .append hp (.same ?_)
    decide +kernel
  | shared name =>
    rw [writer]
    unfold WriteExpr.spelling
    simp only [String.append_assoc]
    refine .append (.text [')'] ?_) <| .append (hp.under _) <| .append (.same ?_) <|
      .append (hp.under _) (.text [] ?_)
    all_goals decide +kernel
  | vector element ih =>
    have helement := ih (Place.neutral_item depth) (depth + 1)
    refine neutral_loop depth (.same ?_) (.same ?_) hp helement <;> decide +kernel
  | optional inner ih =>
    have hvalue := ih (Place.neutral_target hp) depth
    rw [writer]
    unfold WriteExpr.spelling
    simp only [String.append_assoc]
    refine .append (.text [')'] ?_) <| .append (hp.under _) <| .append (.same ?_) <|
      .append (hvalue.under _) (.text [] ?_)
    all_goals decide +kernel

end CppType

/-- The member's identifier is a word, and so is the name of every struct within its type. -/
structure CppMember.Named (m : CppMember) : Prop where
  ident : IsWord m.ident
  type : m.type.Named

namespace CppMember

variable {m : CppMember}

theorem Named.keyType (h : m.Named) : m.keyType.Named := by
  have htype := h.type
  unfold CppMember.keyType
  split
  · next heq =>
    rw [heq] at htype
    exact htype
  · exact htype

theorem neutral_declared (h : m.Named) : Neutral m.declared := by
  refine .append (.append (m.type.neutral_spelling h.type) (.same ?_)) (Neutral.of_isWord h.ident)
  decide +kernel

theorem neutral_place (h : m.Named) : Neutral (Place.member m.ident).spelling := by
  refine .append (.same ?_) (Neutral.of_isWord h.ident)
  decide +kernel

theorem neutral_declaration (h : m.Named) : Neutral m.declaration := by
  have hinitializer : Neutral (if m.type.needsInitializer then "\x7b\x7d" else "") := by
    split <;> exact .same (by decide +kernel)
  unfold declaration
  simp only [String.append_assoc]
  refine .append (.same ?_) <| .append (neutral_declared h) <| .append hinitializer (.same ?_)
  all_goals decide +kernel

theorem neutral_reader (names : String) (hnames : Neutral names) (h : m.Named) :
    Neutral (m.reader.spelling names) := by
  rw [reader_eq]
  refine CppType.neutral_reader hnames _ h.keyType (Place.neutral_target (.same ?_)) 0
  decide +kernel

theorem neutral_writer (h : m.Named) : Neutral m.writer.spelling := by
  rw [writer_eq]
  refine CppType.neutral_writer _ ?_ 0
  split
  · exact Place.neutral_target (neutral_place h)
  · exact neutral_place h

theorem neutral_assignment (names : String) (hnames : Neutral names) (h : m.Named) :
    Neutral ((⟨m.ident, m.isGuarded, m.reader⟩ : Assignment).spelling names) := by
  simp only [Assignment.spelling, String.append_assoc]
  refine .append (.same ?_) <| .append (Neutral.of_isWord h.ident) <| .append (.same ?_) <|
    .append (neutral_reader names hnames h) (.same ?_)
  all_goals decide +kernel

theorem neutral_reading (struct : String) (h : m.Named) : Neutral (m.reading.spelling struct) := by
  have hkey : Neutral (Literal.quote m.key) := .quote m.key
  have hnames : Neutral (Literal.quote struct ++ ", " ++ Literal.quote m.key) := by
    refine .append (.append (Neutral.quote struct) (.same ?_)) hkey
    decide +kernel
  have hassignment := neutral_assignment _ hnames h
  unfold reading
  -- The parts are generalized first, so that only the emitted pieces are put in order.
  split
  · dsimp only [ReadStatement.spelling]
    generalize Assignment.spelling _ _ = assignment at hassignment ⊢
    simp only [String.append_assoc]
    refine .append (.text [')', ')'] ?_) <| .append (hkey.under _) <|
      .append (.text ['\x7d'] ?_) <| .append (hassignment.under _) (.text [] ?_)
    all_goals decide +kernel
  · dsimp only [ReadStatement.spelling]
    generalize Assignment.spelling _ _ = assignment at hassignment ⊢
    generalize Literal.quote struct ++ ", " ++ Literal.quote m.key = names at hnames ⊢
    simp only [String.append_assoc]
    refine .append (.text ['\x7d'] ?_) <| .append (.text [')', '\x7d'] ?_) <|
      .append (hkey.under _) <| .append (.text ['\x7d'] ?_) <|
      .append (.text ['\x7d', '\x7d'] ?_) <| .append (.text [')', '\x7d', '\x7d'] ?_) <|
      .append (hnames.under _) <| .append (.text ['\x7d', '\x7d'] ?_) <|
      .append (.text ['\x7d'] ?_) <| .append (hassignment.under _) (.text [] ?_)
    all_goals decide +kernel

theorem neutral_put (h : m.Named) : Neutral (putSpelling m.key m.writer) := by
  simp only [putSpelling, String.append_assoc]
  refine .append (.text [']'] ?_) <| .append ((Neutral.quote m.key).under _) <|
    .append (.text [] ?_) <| .append (neutral_writer h) (.same ?_)
  all_goals decide +kernel

theorem neutral_writing (h : m.Named) : Neutral m.writing.spelling := by
  have hput := neutral_put h
  unfold writing
  split
  · simp only [WriteStatement.spelling, String.append_assoc]
    refine .append (.text [')'] ?_) <| .append ((neutral_place h).under _) <|
      .append (.text ['\x7d'] ?_) <| .append (hput.under _) (.text [] ?_)
    all_goals decide +kernel
  · refine .append (.same ?_) hput
    decide +kernel

end CppMember

structure CppStruct.Named (s : CppStruct) : Prop where
  name : IsWord s.name
  members : ∀ m ∈ s.members, m.Named

namespace CppStruct

variable {s : CppStruct}

theorem neutral_parameters (h : s.Named) : Neutral s.parameters :=
  neutral_list (List.forall_mem_map.2 fun m hm => CppMember.neutral_declared (h.members m hm))

theorem neutral_declaration (h : s.Named) : Neutral s.declaration := by
  have hname : Neutral s.name := .of_isWord h.name
  have hmembers : Neutral (String.join (s.members.map CppMember.declaration)) :=
    .join (List.forall_mem_map.2 fun m hm => CppMember.neutral_declaration (h.members m hm))
  have hblank : Neutral (if s.members.isEmpty then "" else "\n") := by
    split <;> exact .same (by decide +kernel)
  have hexplicit : Neutral (if s.members.length = 1 then "explicit " else "") := by
    split <;> exact .same (by decide +kernel)
  have hconstructor : Neutral (if s.members.isEmpty then ""
      else
        "  " ++ (if s.members.length = 1 then "explicit " else "") ++ s.name ++ "(" ++
          s.parameters ++ ");\n") := by
    split
    · exact .empty
    · simp only [String.append_assoc]
      refine .append (.same ?_) <| .append hexplicit <| .append hname <| .append (.text [')'] ?_) <|
        .append ((neutral_parameters h).under _) (.text [] ?_)
      all_goals decide +kernel
  unfold declaration
  simp only [String.append_assoc] at hconstructor ⊢
  refine .append (.same ?_) <| .append hname <| .append (.text ['\x7d'] ?_) <|
    .append (hmembers.under _) <| .append (hblank.under _) <| .append (.same ?_) <|
    .append (hname.under _) <| .append (.same ?_) <| .append (hconstructor.under _) <|
    .append (.same ?_) <| .append (hname.under _) <| .append (.same ?_) <| .append (.same ?_)
    (.text [] ?_)
  all_goals decide +kernel

theorem neutral_constructor (h : s.Named) : ∀ c, s.constructor? = some c → Neutral c := by
  have hname : Neutral s.name := .of_isWord h.name
  have hinitializers : Neutral (", ".intercalate
      (s.members.map fun m => m.ident ++ "(std::move(" ++ m.ident ++ "))")) := by
    refine neutral_list (List.forall_mem_map.2 fun m hm => ?_)
    have hident : Neutral m.ident := .of_isWord (h.members m hm).ident
    refine .append (.append (.append hident (.text [')', ')'] ?_)) (hident.under _)) (.text [] ?_)
    all_goals decide +kernel
  intro c hc
  unfold constructor? at hc
  split at hc
  · cases hc
  · rw [Option.some.injEq] at hc
    subst hc
    generalize ", ".intercalate (s.members.map fun m => m.ident ++ "(std::move(" ++ m.ident ++ "))")
      = initializers at hinitializers ⊢
    simp only [String.append_assoc]
    refine .append (.same ?_) <| .append hname <| .append (.same ?_) <| .append hname <|
      .append (.text [')'] ?_) <| .append ((neutral_parameters h).under _) <|
      .append (.text [] ?_) <| .append hinitializers (.same ?_)
    all_goals decide +kernel

theorem neutral_of_mem_reading (h : s.Named) :
    ∀ statement ∈ s.reading, Neutral (statement.spelling s.name) := by
  refine List.forall_mem_cons.2 ⟨?_, List.forall_mem_cons.2 ⟨?_, List.forall_mem_map.2 ?_⟩⟩
  · refine .append (.append (.text [')'] ?_) ((Neutral.quote s.name).under _)) (.text [] ?_)
    all_goals decide +kernel
  · refine .append (.append (.same ?_) (Neutral.of_isWord h.name)) (.same ?_) <;> decide +kernel
  · exact fun m hm => CppMember.neutral_reading s.name (h.members m hm)

theorem neutral_fromDynamic (h : s.Named) : Neutral s.fromDynamic := by
  have hname : Neutral s.name := .of_isWord h.name
  have hbody : Neutral (String.join (s.reading.map (ReadStatement.spelling s.name))) :=
    .join (List.forall_mem_map.2 (neutral_of_mem_reading h))
  unfold fromDynamic
  simp only [String.append_assoc]
  refine .append (.same ?_) <| .append hname <| .append (.same ?_) <| .append hname <|
    .append (.text ['\x7d'] ?_) <| .append (hbody.under _) (.text [] ?_)
  all_goals decide +kernel

theorem neutral_toDynamic (h : s.Named) : Neutral s.toDynamic := by
  have hname : Neutral s.name := .of_isWord h.name
  have hbody : Neutral (String.join (s.writing.map WriteStatement.spelling)) := by
    refine .join (List.forall_mem_map.2 (List.forall_mem_cons.2 ⟨.same ?_, ?_⟩))
    · decide +kernel
    · exact List.forall_mem_map.2 fun m hm => CppMember.neutral_writing (h.members m hm)
  unfold toDynamic
  simp only [String.append_assoc]
  refine .append (.same ?_) <| .append hname <| .append (.text ['\x7d'] ?_) <|
    .append (hbody.under _) (.text [] ?_)
  all_goals decide +kernel

theorem neutral_definitions (h : s.Named) : Neutral s.definitions := by
  have hline : Neutral "\n" := .same (by decide +kernel)
  refine .append (.append (.append ?_ (neutral_fromDynamic h)) hline) (neutral_toDynamic h)
  split
  · next c hc => exact .append (neutral_constructor h c hc) hline
  · exact Neutral.empty

end CppStruct

end SchemaStructs
