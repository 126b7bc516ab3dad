import Mathlib.Data.List.Forall2
import SchemaStructs.Proofs.Header.Banner
import SchemaStructs.Proofs.Header.Legal
import SchemaStructs.Proofs.Header.Lexing
import SchemaStructs.Proofs.Struct.Names

/-!
The text of a whole header. Whatever texts a schema brings in, none leaves its place: the name of
the module stands in the banner and within words, keys and members of enums stand in literals.
Only a name of the module that closes the banner is not kept in.
-/

set_option autoImplicit false

namespace SchemaStructs

open Scan

theorem CppType.ref?_ofFieldType (isComplete : String → Bool) (inVector : Bool)
    (t : FieldType String) : (ofFieldType isComplete inVector t).ref? = t.ref? := by
  induction t generalizing inVector with
  | bool | number | string | generic | enum => rfl
  | array element ih => exact ih true
  | nullable inner ih => exact ih false
  | struct name =>
    unfold ofFieldType
    split <;> rfl

theorem CppType.ref?_ofField (isComplete : String → Bool) (f : Field) :
    (ofField isComplete f).ref? = f.type.ref? := by
  unfold ofField
  split
  · exact ref?_ofFieldType isComplete false f.type
  · exact ref?_ofFieldType isComplete false f.type

theorem named_toCpp {structs : List Struct} (hlinked : Linked structs)
    (hwords : ∀ s ∈ structs, IsWord s.name) {s : Struct} (hs : s ∈ structs) :
    (s.toCpp structs).Named := by
  refine ⟨hwords s hs, fun m hm => ?_⟩
  obtain ⟨⟨f, ident⟩, hmem, rfl⟩ := List.mem_map.1 hm
  obtain ⟨hf, hident⟩ := List.of_mem_zip hmem
  have hlegal := Ident.legal_assign _ _ _ ident hident
  refine ⟨(isIdentifier_iff.1 hlegal.identifier).1, fun name hname => ?_⟩
  have href : f.type.ref? = some name := (CppType.ref?_ofField _ f).symm.trans hname
  obtain ⟨k, hk⟩ := exists_refAt_iff.2 ⟨f, hf, href⟩
  obtain ⟨t, ht, rfl⟩ := List.mem_map.1 (hlinked.closed s hs k name hk)
  exact hwords t ht

variable {options : Options} {moduleName : String} {aliases : Aliases} {methods : List Method}

theorem isWord_of_collect {structs : List Struct}
    (h : collect moduleName aliases methods = .ok structs) : ∀ s ∈ structs, IsWord s.name := by
  intro s hs
  have hident := Naming.isIdentifier_candidate (Naming.isIdentifier_base moduleName s.origin)
    (wellNamed_of_collect h s hs).candidate
  exact (isIdentifier_iff.1 hident).1

theorem neutral_structSection {structs : List CppStruct} (h : ∀ s ∈ structs, s.Named) :
    Neutral (structSection structs) := by
  have hline : Neutral "\n" := .same (by decide +kernel)
  have hnames : Neutral (String.join (structs.map fun s => "struct " ++ s.name ++ ";\n")) := by
    refine .join (List.forall_mem_map.2 fun s hs => ?_)
    refine .append (.append (.same ?_) (Neutral.of_isWord (h s hs).name)) (.same ?_)
    all_goals decide +kernel
  have hdeclarations : Neutral (String.join (structs.map fun s => s.declaration ++ "\n")) :=
    .join (List.forall_mem_map.2 fun s hs => (CppStruct.neutral_declaration (h s hs)).append hline)
  have hdefinitions : Neutral (String.join (structs.map fun s => s.definitions ++ "\n")) :=
    .join (List.forall_mem_map.2 fun s hs => (CppStruct.neutral_definitions (h s hs)).append hline)
  unfold structSection
  split
  · exact .empty
  · exact .append (.append (.append hnames hline) hdeclarations) hdefinitions

theorem exists_runtimeLines : ∃ lines : List (List Char), runtimeLines = lines.map String.ofList ∧
    scan (lines.flatMap (· ++ ['\n'])) ⟨.code, []⟩ = some ⟨.code, []⟩ := by
  have hlines : ∃ lines : List (List Char),
      List.Forall₂ (fun text cs => text = String.ofList cs) runtimeLines lines ∧
        scan (lines.flatMap (· ++ ['\n'])) ⟨.code, []⟩ = some ⟨.code, []⟩ := by
    -- Each line is unified with a list of characters; to unpack them by computation costs too much.
    refine ⟨_, by unfold runtimeLines; repeat constructor, ?_⟩
    decide +kernel
  obtain ⟨lines, heq, hscan⟩ := hlines
  refine ⟨lines, ?_, hscan⟩
  rwa [← List.forall₂_map_right_iff, List.forall₂_eq_eq_eq] at heq

theorem neutral_runtime : Neutral runtime := by
  obtain ⟨lines, hlines, hscan⟩ := exists_runtimeLines
  have htext : runtime.toList = lines.flatMap (· ++ ['\n']) := by
    rw [runtime, hlines, String.toList_join]
    simp [List.flatMap_map]
  intro rest
  rw [htext]
  exact scan_frame hscan rest

theorem neutral_includes : Neutral (String.join includes) := by
  refine .join fun a ha => ?_
  simp only [includes, List.mem_cons, List.not_mem_nil, or_false] at ha
  rcases ha with rfl | rfl | rfl | rfl | rfl | rfl | rfl | rfl | rfl <;>
    exact .same (by decide +kernel)

theorem ne_of_isPart {c : Char} (h : Identifier.isPart c = true) : c ≠ '\n' ∧ c ≠ '\\' := by
  refine ⟨?_, ?_⟩
  · rintro rfl
    exact absurd h (by decide)
  · rintro rfl
    exact absurd h (by decide)

def headerBody (moduleName : String) (options : Options) (structs : List CppStruct) : String :=
  let guard := includeGuard options.guardStart moduleName
  "#ifndef " ++ guard ++ "\n" ++ ("#define " ++ guard ++ "\n\n") ++
    (String.join includes ++ "\n") ++ (runtime ++ "\n") ++
    ("namespace " ++ options.namespaces ++ " \x7b\n\n") ++ structSection structs ++
    ("\x7d // namespace " ++ options.namespaces ++ "\n\n") ++ ("#endif // " ++ guard ++ "\n")

theorem renderHeader_eq (moduleName : String) (options : Options) (structs : List CppStruct) :
    renderHeader moduleName options structs =
      banner moduleName ++ headerBody moduleName options structs := by
  unfold renderHeader headerBody
  simp only [String.append_assoc]

theorem neutral_headerBody (h : options.validate = .ok ()) {structs : List CppStruct}
    (hstructs : ∀ s ∈ structs, s.Named) : Neutral (headerBody moduleName options structs) := by
  have hline : Neutral "\n" := .same (by decide +kernel)
  have hword : IsWord (includeGuard options.guardStart moduleName) :=
    .includeGuard (Options.validate_eq_ok h).2 moduleName
  have hguard : Neutral (includeGuard options.guardStart moduleName) := .of_isWord hword
  have hguards : Neutral ("#ifndef " ++ includeGuard options.guardStart moduleName ++ "\n" ++
      ("#define " ++ includeGuard options.guardStart moduleName ++ "\n\n")) := by
    refine .append (.append (.append (.same ?_) hguard) hline)
      (.append (.append (.same ?_) hguard) (.same ?_))
    all_goals decide +kernel
  have hspaces := isPart_or_eq_of_mem_namespaces h
  have hnamespaces : Neutral options.namespaces := .of_plain fun c hc => by
    rcases hspaces c hc with hpart | rfl
    · exact isPlain_of_isPart hpart
    · decide
  have hopened : Reads [] ("namespace " ++ options.namespaces ++ " \x7b\n\n") ['\x7d'] := by
    refine .append (.append (.same ?_) hnamespaces) (.text _ ?_) <;> decide +kernel
  have hclosed : Reads ['\x7d'] ("\x7d // namespace " ++ options.namespaces ++ "\n\n") [] := by
    refine .comment [] ?_ (fun c hc => ?_) ?_
    · decide +kernel
    · rcases hspaces c hc with hpart | rfl
      · exact ne_of_isPart hpart
      · decide
    · decide +kernel
  have hend : Neutral ("#endif // " ++ includeGuard options.guardStart moduleName ++ "\n") := by
    refine .comment [] ?_ (fun c hc => ne_of_isPart (hword c hc)) ?_ <;> decide +kernel
  have hprelude := (hguards.append (neutral_includes.append hline)).append
    (neutral_runtime.append hline)
  have hspace := (hprelude.append hopened).append ((neutral_structSection hstructs).under _)
  exact (hspace.append hclosed).append hend

/-- Scanned from code, every character fits its place and the text ends in code, with all brackets
closed. -/
structure WellPlaced (text : String) : Prop where
  fits : ∀ before c after, text.toList = before ++ c :: after →
    ∃ s, scan before ⟨.code, []⟩ = some s ∧ s.Fits c
  ends : scan text.toList ⟨.code, []⟩ = some ⟨.code, []⟩

theorem WellPlaced.of_scan {text : String} (h : scan text.toList ⟨.code, []⟩ = some ⟨.code, []⟩) :
    WellPlaced text := ⟨fun _ _ _ htext => fits_of_scan h htext, h⟩

structure InPlace (moduleName header : String) : Prop where
  opens : ∃ rest, header = bannerComment moduleName ++ "\n\n" ++ rest
  comment : BannerIsComment moduleName
  text : WellPlaced header

theorem exists_headerBody {header : String}
    (h : generate options moduleName aliases methods = .ok header) :
    ∃ body, header = bannerComment moduleName ++ "\n\n" ++ body ∧ Neutral body := by
  obtain ⟨hvalid, structs, hcollect, rfl⟩ := exists_of_generate h
  refine ⟨_, by rw [renderHeader_eq, banner_eq], neutral_headerBody hvalid ?_⟩
  exact List.forall_mem_map.2 fun s hs =>
    named_toCpp (linked_of_collect hcollect) (isWord_of_collect hcollect) hs

/-- Behind the banner no text of a schema leaves its place, and none leaves it in the whole header
just if the name of the module does not close the banner. -/
theorem generate_inPlace_iff {header : String}
    (h : generate options moduleName aliases methods = .ok header) :
    (∃ body, header = bannerComment moduleName ++ "\n\n" ++ body ∧ WellPlaced body) ∧
      (InPlace moduleName header ↔ ¬ ClosesComment moduleName.toList) := by
  obtain ⟨body, rfl, hbody⟩ := exists_headerBody h
  refine ⟨⟨body, rfl, .of_scan (hbody [])⟩, fun hplace => bannerIsComment_iff.1 hplace.comment,
    fun hname => ?_⟩
  have hcomment : BannerIsComment moduleName := bannerIsComment_iff.2 hname
  have hblank : scan "\n\n".toList ⟨.code, []⟩ = some ⟨.code, []⟩ := by decide +kernel
  refine ⟨⟨body, rfl⟩, hcomment, .of_scan ?_⟩
  rw [String.toList_append, String.toList_append, scan_append, scan_append, hcomment.ends,
    Option.bind_some, hblank, Option.bind_some]
  exact hbody []

def hostileMethods : List Method :=
  [⟨"m\"\n\x7b", [⟨"p*/", .object [⟨"\\\"; \x7d // é\n", .enum ["\"", "\\", "*/\r\n"], true⟩]⟩],
    .scalar .void⟩]

def hostileName : String := "*/ \\\n/ \" \x7b\n"

theorem generate_inPlace_iff_hostile :
    ∃ header, generate {} hostileName [] hostileMethods = .ok header ∧
      InPlace hostileName header := by
  have hcollect : ∃ structs, collect hostileName [] hostileMethods = .ok structs :=
    exists_of_isOk (by decide +kernel)
  obtain ⟨header, hheader⟩ : ∃ header,
      generate {} hostileName [] hostileMethods = .ok header :=
    generate_eq_ok_iff.2 ⟨by decide +kernel, hcollect⟩
  have hname : ¬ ClosesComment hostileName.toList :=
    fun hcloses => absurd (isInfix_of_closesComment hcloses) (by decide +kernel)
  exact ⟨header, hheader, (generate_inPlace_iff hheader).2.2 hname⟩

def smugglingName : String := "*\\\n/ int smuggled = 1; /* "

/-- The declaration in the name stands in the header as code. -/
theorem generate_not_inPlace_smuggling :
    ∃ header, generate {} smugglingName [] [] = .ok header ∧ ¬ InPlace smugglingName header ∧
      ∃ before after, header.toList = before ++ "int smuggled = 1;".toList ++ after ∧
        scan before ⟨.code, []⟩ = some ⟨.code, []⟩ := by
  obtain ⟨header, hheader⟩ : ∃ header, generate {} smugglingName [] [] = .ok header :=
    generate_eq_ok_iff.2 ⟨by decide +kernel, [], rfl⟩
  obtain ⟨body, rfl, -⟩ := exists_headerBody hheader
  have hjoint : IsJoint ['\\', '\n'] := ⟨[], ['\n'], by simp, by simp, rfl⟩
  have hcloses : ClosesComment smugglingName.toList :=
    ⟨[], _, " int smuggled = 1; /* ".toList, by decide +kernel, by simp, Joints.nil.snoc hjoint⟩
  have hbanner : (bannerComment smugglingName).toList = bannerOpening.toList ++
      "*\\\n/ ".toList ++ "int smuggled = 1;".toList ++ " /* \n */".toList := by
    decide +kernel
  refine ⟨_, hheader, fun hplace => bannerIsComment_iff.1 hplace.comment hcloses,
    bannerOpening.toList ++ "*\\\n/ ".toList, " /* \n */".toList ++ ("\n\n" ++ body).toList,
    ?_, ?_⟩
  · simp only [String.toList_append, hbanner, List.append_assoc]
  · decide +kernel

end SchemaStructs
