import Mathlib.Data.List.Infix
import SchemaStructs.Proofs.Ending
import SchemaStructs.Proofs.Struct.Names
import SchemaStructs.Proofs.Text.Capital

/-!
Names of structs as C++ names. Every name is an identifier, but nothing keeps it apart from the
reserved words: the module's name and an alias can spell one together, and a path without letters
leaves the module's name alone.
-/

set_option autoImplicit false

namespace SchemaStructs

open Identifier

namespace Naming

variable {moduleName name : String} {path : List String}

theorem not_isReserved_twice (a b c : String) :
    isReserved (a ++ "_" ++ (b ++ "_" ++ c)) = false := by
  have hcount : ∀ w ∈ reservedWords, w.toList.count '_' ≤ 1 := by decide +kernel
  rw [Bool.eq_false_iff]
  intro h
  have hle := hcount _ (List.contains_iff_mem.1 h)
  have hunderscore : "_".toList.count '_' = 1 := by decide
  simp only [String.toList_append, List.count_append, hunderscore] at hle
  omega

theorem isLower_of_isReserved {a b : String} (h : isReserved (a ++ "_" ++ b) = true) :
    ∃ c ∈ b.toList.head?, c.isLower = true := by
  have hwords : ∀ w ∈ reservedWords, ∀ t ∈ w.toList.tails, t.head? = some '_' →
      t.tail.head?.any Char.isLower = true := by decide +kernel
  have htail : ('_' :: b.toList) ∈ (a ++ "_" ++ b).toList.tails := by
    rw [List.mem_tails]
    exact ⟨a.toList, by simp [String.toList_append]⟩
  have hlower := hwords _ (List.contains_iff_mem.1 h) _ htail rfl
  rw [List.tail_cons, Option.any_eq_true] at hlower
  exact hlower

theorem isReserved_ofAlias_iff : isReserved (ofAlias moduleName name) = true ↔
    ∃ rest, isReserved (sanitize moduleName ++ "_" ++ rest) = true ∧
      (sanitize name = rest ∨ sanitize name = sanitize moduleName ++ "_" ++ rest) := by
  simp only [ofAlias]
  split
  · next hprefix =>
    obtain ⟨rest, hrest⟩ := List.isPrefixOf_iff_prefix.1 hprefix
    have hname : sanitize name = sanitize moduleName ++ "_" ++ String.ofList rest := by
      apply String.toList_inj.1
      simp only [← hrest, String.toList_append, String.toList_ofList]
    constructor
    · intro h
      exact ⟨_, hname ▸ h, .inr hname⟩
    · rintro ⟨rest, h, rfl | h'⟩
      -- The alias would bring the module's underscore into the word a second time.
      · rw [hname, not_isReserved_twice] at h
        cases h
      · rwa [h']
  · next hprefix =>
    constructor
    · intro h
      exact ⟨_, h, .inl rfl⟩
    · rintro ⟨rest, h, rfl | h'⟩
      · exact h
      · refine absurd (List.isPrefixOf_iff_prefix.2 ⟨rest.toList, ?_⟩) hprefix
        simp only [h', String.toList_append]

theorem isReserved_ofPath_iff : isReserved (ofPath moduleName path) = true ↔
    isReserved (sanitize moduleName) = true ∧
      ∀ segment ∈ path, segment.toList.all isWordBreak = true := by
  simp only [ofPath]
  split
  · next hempty => exact ⟨fun h => ⟨h, (isEmpty_pascalCases_iff path).1 hempty⟩, And.left⟩
  · next hempty =>
    constructor
    · intro h
      obtain ⟨c, hc, hlower⟩ := isLower_of_isReserved h
      rw [(capital_pascalCases path).sanitize c hc] at hlower
      cases hlower
    · rintro ⟨-, hbreaks⟩
      exact absurd ((isEmpty_pascalCases_iff path).2 hbreaks) hempty

end Naming

def Origin.SpellsReserved (moduleName : String) : Origin → Prop
  | .named name => ∃ rest, isReserved (sanitize moduleName ++ "_" ++ rest) = true ∧
      (sanitize name = rest ∨ sanitize name = sanitize moduleName ++ "_" ++ rest)
  | .path segments => isReserved (sanitize moduleName) = true ∧
      ∀ segment ∈ segments, segment.toList.all isWordBreak = true

theorem Origin.isReserved_base_iff (moduleName : String) (origin : Origin) :
    isReserved (origin.base moduleName) = true ↔ origin.SpellsReserved moduleName := by
  cases origin with
  | named name => exact Naming.isReserved_ofAlias_iff
  | path segments => exact Naming.isReserved_ofPath_iff

variable {moduleName : String} {aliases : Aliases} {methods : List Method} {structs : List Struct}

/-- The names of structs are identifiers, and the reserved ones among them are those without a
number that the module and the struct's origin spell. -/
theorem collect_names_reserved_iff (h : collect moduleName aliases methods = .ok structs) :
    ∀ s ∈ structs, isIdentifier s.name = true ∧ (isReserved s.name = true ↔
      s.name = s.origin.base moduleName ∧ s.origin.SpellsReserved moduleName) := by
  intro s hs
  have hcandidate := (wellNamed_of_collect h s hs).candidate
  have hbase := Naming.isIdentifier_base moduleName s.origin
  refine ⟨Naming.isIdentifier_candidate hbase hcandidate, ?_⟩
  rw [← Origin.isReserved_base_iff]
  constructor
  · intro hreserved
    rcases List.mem_cons.1 hcandidate with hname | hname
    · exact ⟨hname, hname ▸ hreserved⟩
    · obtain ⟨n, -, hn⟩ := List.mem_map.1 hname
      rw [← hn, isReserved_of_not_endsInLetter (endsInLetter_numbered _ _)] at hreserved
      cases hreserved
  · rintro ⟨hname, hreserved⟩
    rwa [hname]

section

def operatorAliases : Aliases :=
  [("eq", .object [⟨"x", .scalar .number, false⟩, ⟨"next", .nullable (.named "equal"), false⟩]),
    ("equal", .object [⟨"x", .scalar .number, false⟩])]

def operatorStructs : List Struct :=
  [⟨"and_equal", [⟨"x", .number, false⟩], .named "equal"⟩,
    ⟨"and_eq", [⟨"x", .number, false⟩, ⟨"next", .nullable (.struct "and_equal"), false⟩],
      .named "eq"⟩]

theorem collect_names_reserved_iff_operator :
    collect "and" operatorAliases (returning "eq") = .ok operatorStructs ∧
      ∀ s ∈ operatorStructs, isIdentifier s.name = true ∧ (isReserved s.name = true ↔
        s.name = s.origin.base "and" ∧ s.origin.SpellsReserved "and") := by
  have h : collect "and" operatorAliases (returning "eq") = .ok operatorStructs := by
    decide +kernel
  exact ⟨h, collect_names_reserved_iff h⟩

/-- The module and the alias are no reserved words, but the name made of both is one. -/
theorem struct_name_reserved :
    collect "and" operatorAliases (returning "eq") = .ok operatorStructs ∧
      ∃ s ∈ operatorStructs, s.name = "and_eq" ∧ isReserved s.name = true := by
  decide +kernel

end

end SchemaStructs
