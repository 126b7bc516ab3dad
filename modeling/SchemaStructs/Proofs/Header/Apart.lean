import SchemaStructs.Proofs.Header.Emission
import SchemaStructs.Proofs.Struct.Names
import SchemaStructs.Proofs.Text.Word

/-!
Headers of one document side by side. All names that a header defines are made from its module's
name, and the making is lossy: modules of different names can come to the same include guard, and
the structs of a module can have the names of those of another.
-/

set_option autoImplicit false

namespace SchemaStructs

open Identifier

section

theorem mend_of_isPart {c : Char} (h : isPart c = true) : mend c = c := if_pos h

theorem guardStart_append (cs ds : List Char) :
    guardStart (guardStart cs ++ ds) = guardStart cs ++ ds := by
  cases cs with
  | nil => rfl
  | cons c cs =>
    by_cases hdigit : c.isDigit = true
    · simp only [guardStart, hdigit, if_true, List.cons_append]
      rfl
    · simp only [guardStart, hdigit, Bool.false_eq_true, if_false, List.cons_append]

/-- An identifier that goes on with the characters of identifiers is one, so it stays as it is. -/
theorem sanitize_append {s t : String} (ht : IsWord t) :
    sanitize (sanitize s ++ t) = sanitize s ++ t := by
  have hmend : (sanitize s ++ t).toList.map mend = (sanitize s ++ t).toList :=
    (List.map_congr_left fun c hc => mend_of_isPart ((IsWord.sanitize s).append ht c hc)).trans
      (List.map_id _)
  apply String.toList_inj.1
  rw [sanitize, hmend, String.toList_ofList, String.toList_append, sanitize,
    String.toList_ofList, guardStart_append]

end

/-- As identifiers, the second name is the first with an underscore behind it and maybe more. -/
def Naming.continues (a b : String) : Bool :=
  (sanitize a ++ "_").toList.isPrefixOf (sanitize b).toList

/-- The name is the module's, as an identifier, or it goes on behind it with an underscore. -/
def Naming.Owns (moduleName name : String) : Prop :=
  name = sanitize moduleName ∨ (sanitize moduleName ++ "_").toList <+: name.toList

namespace Naming

variable {a b moduleName name : String}

theorem continues_iff : Naming.continues a b = true ↔
    (sanitize a ++ "_").toList <+: (sanitize b).toList := List.isPrefixOf_iff_prefix

theorem owns_append (moduleName rest : String) :
    Owns moduleName (sanitize moduleName ++ "_" ++ rest) := by
  exact .inr ⟨rest.toList, String.toList_append.symm⟩

theorem owns_ofAlias (moduleName name : String) : Owns moduleName (ofAlias moduleName name) := by
  simp only [ofAlias]
  split
  · next h => exact .inr (List.isPrefixOf_iff_prefix.1 h)
  · exact owns_append _ _

theorem owns_ofPath (moduleName : String) (path : List String) :
    Owns moduleName (ofPath moduleName path) := by
  simp only [ofPath]
  split
  · exact .inl rfl
  · exact owns_append _ _

theorem owns_base (moduleName : String) (origin : Origin) :
    Owns moduleName (origin.base moduleName) := by
  cases origin with
  | named name => exact owns_ofAlias moduleName name
  | path segments => exact owns_ofPath moduleName segments

theorem Owns.candidate {base : String} (h : Owns moduleName base) {last : Nat}
    (hname : name ∈ candidates base last) : Owns moduleName name := by
  rcases List.mem_cons.1 hname with rfl | hname
  · exact h
  · obtain ⟨n, -, rfl⟩ := List.mem_map.1 hname
    rcases h with rfl | h
    · exact owns_append _ _
    · rw [numbered, String.append_assoc]
      exact .inr (h.trans ⟨_, String.toList_append.symm⟩)

theorem eq_or_begins {s t : String} (h : (s ++ "_").toList <+: (t ++ "_").toList) :
    s = t ∨ (s ++ "_").toList <+: t.toList := by
  rw [String.toList_append, String.toList_append] at h
  rcases List.prefix_concat_iff.1 h with heq | hprefix
  · exact .inl (String.toList_inj.1 (List.append_cancel_right heq))
  · rw [String.toList_append]
    exact .inr hprefix

/-- Of two modules that own one name, the identifiers are equal or one continues the other. -/
theorem Owns.related (ha : Owns a name) (hb : Owns b name) :
    sanitize a = sanitize b ∨ Naming.continues a b = true ∨ Naming.continues b a = true := by
  rw [continues_iff, continues_iff]
  rcases ha with rfl | ha
  · exact hb.imp id .inr
  rcases hb with rfl | hb
  · exact .inr (.inl ha)
  rcases List.prefix_or_prefix_of_prefix ha hb with h | h
  · exact (eq_or_begins h).imp id .inl
  · exact (eq_or_begins h).imp Eq.symm .inr

theorem ofAlias_of_prefix (hname : sanitize name = name)
    (h : (sanitize moduleName ++ "_").toList <+: name.toList) : ofAlias moduleName name = name := by
  simp only [ofAlias, hname, List.isPrefixOf_iff_prefix.2 h, if_true]

end Naming

theorem includeGuard_eq_iff {start a b : String} : includeGuard start a = includeGuard start b ↔
    shout (sanitize a) = shout (sanitize b) := by
  refine ⟨fun h => ?_, fun h => by rw [includeGuard, includeGuard, h]⟩
  have hchars := congrArg String.toList h
  simp only [includeGuard, String.toList_append] at hchars
  exact String.toList_inj.1 (List.append_cancel_left (List.append_cancel_right hchars))

section

variable {options : Options} {moduleName : String} {m : Module} {structs : List CppStruct}

def Module.Emits (options : Options) (moduleName : String) (m : Module)
    (structs : List CppStruct) : Prop :=
  m.generate options moduleName = .ok (renderHeader moduleName options structs) ∧
    ∃ collected, collect moduleName m.aliases.entries m.methods = .ok collected ∧
      collected.mapM (CppStruct.ofStruct collected) = .ok structs

theorem Module.Emits.owns (h : m.Emits options moduleName structs) :
    ∀ s ∈ structs, Naming.Owns moduleName s.name := by
  obtain ⟨-, collected, hcollect, hemit⟩ := h
  rw [mapM_eq_ok_map fun s hs => ofStruct_eq (linked_of_collect hcollect) hs,
    Except.ok.injEq] at hemit
  rw [← hemit, List.forall_mem_map]
  intro s hs
  exact (Naming.owns_base moduleName s.origin).candidate
    (wellNamed_of_collect hcollect s hs).candidate

theorem exists_emits {collected : List Struct} {t : Struct} (hvalid : options.validate = .ok ())
    (hcollect : collect moduleName m.aliases.entries m.methods = .ok collected)
    (ht : t ∈ collected) : ∃ structs, m.Emits options moduleName structs ∧
      ∃ s ∈ structs, s.name = t.name := by
  refine ⟨collected.map (Struct.toCpp collected), ⟨?_, collected, hcollect,
    mapM_eq_ok_map fun s hs => ofStruct_eq (linked_of_collect hcollect) hs⟩,
    t.toCpp collected, List.mem_map_of_mem ht, rfl⟩
  rw [Module.generate, generate_eq, hvalid, hcollect]
  rfl

end

/-- One header may follow the other: the second is not skipped for its include guard, and no
struct is defined in both. -/
def HeadersApart (options : Options) (a b : String) : Prop :=
  ∀ (d : Document) (m n : Module), (a, m) ∈ d.modules.entries → (b, n) ∈ d.modules.entries →
    ∀ structs structs', m.Emits options a structs → n.Emits options b structs' →
      includeGuard options.guardStart a ≠ includeGuard options.guardStart b ∧
        ∀ s ∈ structs, ∀ t ∈ structs', s.name ≠ t.name

theorem exists_document {a b : String} (h : a ≠ b) (m n : Module) :
    ∃ d : Document, (a, m) ∈ d.modules.entries ∧ (b, n) ∈ d.modules.entries := by
  by_cases hlt : a < b
  · exact ⟨⟨[(a, m), (b, n)], by simpa using hlt⟩, by simp, by simp⟩
  · exact ⟨⟨[(b, n), (a, m)], by simpa using NameMap.lt_of_not_lt_of_ne hlt h⟩, by simp, by simp⟩

section

def bare (name : String) : Aliases := [(name, .object [])]

variable (name : String)

@[simp] theorem lookup_bare : (bare name).lookup name = some (.object []) := List.lookup_cons_self

theorem represent_bare : (SchemaType.named name).represent (bare name) = .ok (bare name) := by
  have hreach : (SchemaType.named name).reach (bare name) = .ok (bare name) := by
    change reachFrom (bare name) [name] [] = .ok (bare name)
    rw [reachFrom_defined List.not_mem_nil (lookup_bare name)]
    change reachFrom (bare name) [] [(name, .object [])] = .ok (bare name)
    rw [reachFrom, bare]
  have hcycle : badCycle (bare name) (SchemaType.named name).targets = none := by
    simp [badCycle, findCycle, findCycleFrom, SchemaType.targets, SchemaType.references,
      Property.references, searchFrom]
  rw [SchemaType.represent, hreach, ok_bind, hcycle]

theorem collect_bare (moduleName : String) : collect moduleName (bare name) (returning name) =
    .ok [⟨Naming.ofAlias moduleName name, [], .named name⟩] := by
  have hgraphs : ((returning name).flatMap Method.slots).mapM (·.type.represent (bare name)) =
      .ok [bare name] := by
    simp [represent_bare, pure, Except.pure, bind, Except.bind]
  have hfollow := follow_of_lookup (lookup_bare name) fun m => by simp
  have hbudget : budget (bare name) = 3 + 1 := rfl
  have hrun : (lowerSlots moduleName budget 0
      [(⟨["f", resultSegment], .named name, true⟩, bare name)]).run {} = .ok ((), {
        structs := [⟨Naming.ofAlias moduleName name, [], .named name⟩]
        shapes := [([], Naming.ofAlias moduleName name)]
        named := [(name, Naming.ofAlias moduleName name)]
        lowered := [(⟨.named name, []⟩, Naming.ofAlias moduleName name)]
        taken := [Naming.ofAlias moduleName name] }) := by
    simp only [lowerSlots, SchemaType.isVoid, lowerType, hbudget]
    rw [lowerAlias, hfollow]
    rfl
  rw [collect, collectWithin_eq hgraphs, slots_returning, List.zip_cons_cons, List.zip_nil_right,
    hrun]
  simp [mergeEquivalent, Classes.stable, Classes.refine, Classes.round, Classes.trivial,
    Classes.group, Classes.signature, Classes.classOf]

def bareModule : Module where
  aliases := ⟨bare name, List.pairwise_singleton _ _⟩
  methods := returning name

theorem emits_bareModule {options : Options} (hvalid : options.validate = .ok ())
    (moduleName : String) : ∃ structs, (bareModule name).Emits options moduleName structs ∧
      ∃ s ∈ structs, s.name = Naming.ofAlias moduleName name := by
  have hcollect : collect moduleName (bareModule name).aliases.entries (bareModule name).methods =
      .ok [⟨Naming.ofAlias moduleName name, [], .named name⟩] := collect_bare name moduleName
  obtain ⟨structs, hemits, s, hs, hsname⟩ := exists_emits hvalid hcollect List.mem_cons_self
  refine ⟨structs, hemits, s, hs, ?_⟩
  rw [hsname]

end

section

variable {options : Options} {a b : String}

theorem HeadersApart.symm (h : HeadersApart options a b) : HeadersApart options b a := by
  intro d m n hm hn structs structs' hstructs hstructs'
  obtain ⟨hguard, hnames⟩ := h d n m hn hm structs' structs hstructs' hstructs
  exact ⟨hguard.symm, fun s hs t ht => (hnames t ht s hs).symm⟩

/-- Two modules with this alias, whatever its name, are in one document and have headers. -/
theorem HeadersApart.bare (h : HeadersApart options a b) (hab : a ≠ b)
    (hvalid : options.validate = .ok ()) (name : String) :
    includeGuard options.guardStart a ≠ includeGuard options.guardStart b ∧
      Naming.ofAlias a name ≠ Naming.ofAlias b name := by
  obtain ⟨d, hm, hn⟩ := exists_document hab (bareModule name) (bareModule name)
  obtain ⟨structs, hstructs, s, hs, hsname⟩ := emits_bareModule name hvalid a
  obtain ⟨structs', hstructs', t, ht, htname⟩ := emits_bareModule name hvalid b
  obtain ⟨hguard, hnames⟩ := h d _ _ hm hn structs structs' hstructs hstructs'
  refine ⟨hguard, ?_⟩
  rw [← hsname, ← htname]
  exact hnames s hs t ht

/-- Where the second name continues the first, an alias that begins as the names of the second
module do is called the same in both. -/
theorem HeadersApart.not_continues (h : HeadersApart options a b) (hab : a ≠ b)
    (hvalid : options.validate = .ok ()) : Naming.continues a b = false := by
  rw [Bool.eq_false_iff]
  intro hcontinues
  have hname : sanitize (sanitize b ++ "_") = sanitize b ++ "_" := sanitize_append .underscore
  have hprefix : (sanitize a ++ "_").toList <+: (sanitize b ++ "_").toList :=
    (Naming.continues_iff.1 hcontinues).trans ⟨_, String.toList_append.symm⟩
  refine (h.bare hab hvalid (sanitize b ++ "_")).2 ?_
  rw [Naming.ofAlias_of_prefix hname hprefix,
    Naming.ofAlias_of_prefix hname (List.prefix_refl _)]

/-- The headers of two modules can always follow each other just when the names, as identifiers,
differ by more than the case of letters and neither continues the other. -/
theorem headersApart_iff (hvalid : options.validate = .ok ()) (hab : a ≠ b) :
    HeadersApart options a b ↔ shout (sanitize a) ≠ shout (sanitize b) ∧
      Naming.continues a b = false ∧ Naming.continues b a = false := by
  constructor
  · intro h
    refine ⟨fun hshout => (h.bare hab hvalid a).1 (includeGuard_eq_iff.2 hshout),
      h.not_continues hab hvalid, h.symm.not_continues hab.symm hvalid⟩
  · rintro ⟨hshout, hright, hleft⟩ d m n - - structs structs' hstructs hstructs'
    refine ⟨fun hguard => hshout (includeGuard_eq_iff.1 hguard), fun s hs t ht hname => ?_⟩
    rcases (hstructs.owns s hs).related (hname ▸ hstructs'.owns t ht) with heq | h | h
    · exact hshout (congrArg shout heq)
    · rw [hright] at h
      cases h
    · rw [hleft] at h
      cases h

theorem headersApart_iff_users :
    ({} : Options).validate = .ok () ∧ "users" ≠ "user_groups" ∧
      HeadersApart {} "users" "user_groups" ∧ ¬ HeadersApart {} "user" "user_groups" := by
  have hvalid : ({} : Options).validate = .ok () := by decide +kernel
  refine ⟨hvalid, by decide, (headersApart_iff hvalid (by decide)).2 (by decide +kernel), ?_⟩
  rw [headersApart_iff hvalid (by decide)]
  decide +kernel

end

def counting : Module where
  methods := [⟨"f", [], .object [⟨"x", .scalar .number, false⟩]⟩]

/-- Names that differ in a word break only come to one identifier: the header that follows is
skipped, or with its guard removed it defines a struct again. -/
theorem headers_clash :
    ({} : Options).validate = .ok () ∧ "a-b" ≠ "a_b" ∧ ¬ HeadersApart {} "a-b" "a_b" ∧
      ∃ (d : Document) (m n : Module), ("a-b", m) ∈ d.modules.entries ∧
        ("a_b", n) ∈ d.modules.entries ∧ ∃ structs structs', m.Emits {} "a-b" structs ∧
          n.Emits {} "a_b" structs' ∧
          includeGuard "STRUCTGEN" "a-b" = includeGuard "STRUCTGEN" "a_b" ∧
          ∃ s ∈ structs, ∃ t ∈ structs', s.name = t.name := by
  have hvalid : ({} : Options).validate = .ok () := by decide +kernel
  have hcollect : ∀ moduleName ∈ ["a-b", "a_b"],
      collect moduleName counting.aliases.entries counting.methods =
        .ok [⟨"a_b_FReturnType", [⟨"x", .number, false⟩], .path ["f", resultSegment]⟩] := by
    decide +kernel
  obtain ⟨_, hdash, s, hs, hsname⟩ :=
    exists_emits hvalid (hcollect "a-b" (by decide)) List.mem_cons_self
  obtain ⟨_, hline, t, ht, htname⟩ :=
    exists_emits hvalid (hcollect "a_b" (by decide)) List.mem_cons_self
  obtain ⟨d, hm, hn⟩ := exists_document (by decide : "a-b" ≠ "a_b") counting counting
  have hguard : includeGuard "STRUCTGEN" "a-b" = includeGuard "STRUCTGEN" "a_b" := by
    decide +kernel
  have hapart : ¬ HeadersApart {} "a-b" "a_b" :=
    fun h => (h d _ _ hm hn _ _ hdash hline).1 hguard
  exact ⟨hvalid, by decide, hapart,
    d, _, _, hm, hn, _, _, hdash, hline, hguard, s, hs, t, ht, hsname.trans htname.symm⟩

end SchemaStructs
