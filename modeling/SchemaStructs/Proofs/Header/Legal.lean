import SchemaStructs.Proofs.Header.Emission
import SchemaStructs.Proofs.Header.Ident
import SchemaStructs.Proofs.Text.Identifier

set_option autoImplicit false

namespace SchemaStructs.Ident

open Identifier

/-- An identifier that means nothing else within a struct. -/
structure Legal (ident : String) : Prop where
  identifier : isIdentifier ident = true
  notReserved : isReserved ident = false
  notLibrary : ident ∉ libraryNames

/-- The name itself where it may be used, else the name with an underscore behind it. -/
theorem avoid_cases (isUsable : String → Bool) (ident : String) :
    isUsable ident = true ∧ avoid isUsable ident = ident ∨
      isUsable ident = false ∧ avoid isUsable ident = ident ++ "_" := by
  unfold avoid
  cases isUsable ident with
  | true => exact .inl ⟨rfl, rfl⟩
  | false => exact .inr ⟨rfl, rfl⟩

theorem wish_cases (structs : List String) (key : String) :
    (ofKey key ∉ libraryNames ∧ ofKey key ∉ structs) ∧ wish structs key = ofKey key ∨
      (ofKey key ∈ libraryNames ∨ ofKey key ∈ structs) ∧ wish structs key = ofKey key ++ "_" := by
  rcases avoid_cases (fun ident => !libraryNames.contains ident && !structs.contains ident)
    (ofKey key) with ⟨husable, h⟩ | ⟨husable, h⟩
  · exact .inl ⟨by simpa using husable, h⟩
  · refine .inr ⟨?_, h⟩
    rw [Bool.and_eq_false_iff] at husable
    simpa using husable

theorem Legal.of_end {ident : String} (hident : isIdentifier ident = true)
    (hend : endsInLetter ident = false) : Legal ident := by
  refine ⟨hident, isReserved_of_not_endsInLetter hend, fun hmem => ?_⟩
  rw [endsInLetter_of_mem_libraryNames ident hmem] at hend
  cases hend

@[simp] theorem isIdentifier_ofKey (key : String) : isIdentifier (ofKey key) = true := by
  rcases avoid_cases (!isReserved ·) (sanitize key) with ⟨-, h⟩ | ⟨-, h⟩
  · simp [ofKey, h]
  · simpa only [ofKey, h] using isIdentifier_append (isIdentifier_sanitize key) .underscore

@[simp] theorem isReserved_ofKey (key : String) : isReserved (ofKey key) = false := by
  rcases avoid_cases (!isReserved ·) (sanitize key) with ⟨husable, h⟩ | ⟨-, h⟩
  · rw [ofKey, h]
    simpa using husable
  · rw [ofKey, h]
    exact isReserved_of_not_endsInLetter (endsInLetter_underscore _)

theorem legal_wish (structs : List String) (key : String) : Legal (wish structs key) := by
  rcases wish_cases structs key with ⟨⟨hlibrary, -⟩, h⟩ | ⟨-, h⟩
  · rw [h]
    exact ⟨isIdentifier_ofKey key, isReserved_ofKey key, hlibrary⟩
  · rw [h]
    exact .of_end (isIdentifier_append (isIdentifier_ofKey key) .underscore)
      (endsInLetter_underscore _)

/-- A number behind an identifier makes no word of it that is reserved. -/
theorem Legal.form {ident : String} (h : Legal ident) (n : Nat) : Legal (Naming.form ident n) := by
  cases n with
  | zero => exact h
  | succ n =>
    exact .of_end (isIdentifier_numbered h.identifier _) (endsInLetter_numbered _ _)

theorem legal_assign (structs used keys : List String) :
    ∀ ident ∈ assign structs used keys, Legal ident := by
  induction keys generalizing used with
  | nil => simp [assign]
  | cons key keys ih =>
    rw [assign, List.forall_mem_cons]
    obtain ⟨n, -, hn, -⟩ := exists_unused used (wish structs key)
    exact ⟨hn ▸ (legal_wish structs key).form n, ih _⟩

/-- The searches for identifiers end, in one way only, and give each field in its turn an
identifier of its own that may be used; the members have these identifiers. -/
theorem idents_legal (all : List Struct) (s : Struct) :
    (∀ idents, Assigns (all.map (·.name)) [] (s.fields.map (·.name)) idents ↔
      idents = s.idents all) ∧
    (s.idents all).length = s.fields.length ∧ (s.idents all).Nodup ∧
    (∀ ident ∈ s.idents all, Legal ident) ∧
    ∀ cpp, CppStruct.ofStruct all s = .ok cpp → cpp.members.map (·.ident) = s.idents all :=
  ⟨fun _ => assigns_iff, s.length_idents all, (nodup_assign _ _ _).1, legal_assign _ _ _,
    fun _ h => eq_toCpp h ▸ s.idents_toCpp all⟩

def headersStruct : Struct where
  name := "M_Headers"
  fields := [⟨"content-type", .string, false⟩, ⟨"content_type", .string, true⟩,
    ⟨"content_type_2", .string, false⟩, ⟨"class", .bool, false⟩, ⟨"std", .number, false⟩,
    ⟨"M_Headers", .struct "M_Headers", true⟩]
  origin := .named "Headers"

theorem idents_legal_headers :
    ∃ cpp, CppStruct.ofStruct [headersStruct] headersStruct = .ok cpp ∧
      cpp.members.map (·.ident) = ["content_type", "content_type_2", "content_type_2_2", "class_",
        "std_", "M_Headers_"] ∧
      (cpp.members.map (·.ident)).Nodup ∧ ∀ ident ∈ cpp.members.map (·.ident), Legal ident := by
  obtain ⟨-, -, hnodup, hlegal, hmembers⟩ := idents_legal [headersStruct] headersStruct
  have hcpp : CppStruct.ofStruct [headersStruct] headersStruct =
      .ok (headersStruct.toCpp [headersStruct]) := rfl
  rw [← hmembers _ hcpp] at hnodup hlegal
  exact ⟨_, hcpp, by decide +kernel, hnodup, hlegal⟩

end SchemaStructs.Ident
