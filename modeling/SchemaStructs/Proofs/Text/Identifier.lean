import SchemaStructs.Proofs.Text.Word

/-!
Identifiers and reserved words. An identifier stays one when it goes on with a word. Reserved words
end in a letter, so an underscore or a number at the end keeps a name apart from all of them.
-/

set_option autoImplicit false

namespace SchemaStructs

open Identifier

@[simp] theorem isIdentifier_sanitize (s : String) : isIdentifier (sanitize s) = true := by
  rw [isIdentifier_iff]
  refine ⟨.sanitize s, ?_⟩
  rw [sanitize, String.toList_ofList]
  cases hchars : s.toList with
  | nil => exact ⟨'_', rfl, rfl⟩
  | cons c cs =>
    rw [List.map_cons, guardStart]
    split
    · exact ⟨'_', rfl, rfl⟩
    · next hdigit =>
      exact ⟨mend c, rfl, (isPart_iff.1 (IsWord.isPart_mend c)).resolve_right hdigit⟩

theorem isIdentifier_append {s t : String} (hs : isIdentifier s = true) (ht : IsWord t) :
    isIdentifier (s ++ t) = true := by
  rw [isIdentifier_iff] at hs ⊢
  obtain ⟨hword, c, hhead, hstart⟩ := hs
  refine ⟨hword.append ht, c, ?_, hstart⟩
  rw [String.toList_append, List.head?_append, Option.mem_def.1 hhead]
  rfl

theorem isIdentifier_numbered {base : String} (h : isIdentifier base = true) (n : Nat) :
    isIdentifier (Naming.numbered base n) = true :=
  isIdentifier_append (isIdentifier_append h .underscore) (.toString n)

namespace Naming

@[simp] theorem isIdentifier_ofAlias (moduleName name : String) :
    isIdentifier (ofAlias moduleName name) = true := by
  simp only [ofAlias]
  split
  · exact isIdentifier_sanitize name
  · exact isIdentifier_append (isIdentifier_append (isIdentifier_sanitize moduleName) .underscore)
      (.sanitize name)

@[simp] theorem isIdentifier_ofPath (moduleName : String) (path : List String) :
    isIdentifier (ofPath moduleName path) = true := by
  simp only [ofPath]
  split
  · exact isIdentifier_sanitize moduleName
  · exact isIdentifier_append (isIdentifier_append (isIdentifier_sanitize moduleName) .underscore)
      (.sanitize _)

@[simp] theorem isIdentifier_base (moduleName : String) (origin : Origin) :
    isIdentifier (origin.base moduleName) = true := by
  cases origin with
  | named name => exact isIdentifier_ofAlias moduleName name
  | path segments => exact isIdentifier_ofPath moduleName segments

theorem isIdentifier_candidate {base name : String} (h : isIdentifier base = true) {last : Nat}
    (hname : name ∈ candidates base last) : isIdentifier name = true := by
  rcases List.mem_cons.1 hname with rfl | hname
  · exact h
  · obtain ⟨n, -, rfl⟩ := List.mem_map.1 hname
    exact isIdentifier_numbered h n

end Naming

def endsInLetter (s : String) : Bool := s.toList.getLast?.any Char.isAlpha

theorem endsInLetter_append (s : String) {t : String} (h : t.toList ≠ []) :
    endsInLetter (s ++ t) = endsInLetter t := by
  rw [endsInLetter, String.toList_append, List.getLast?_append_of_ne_nil _ h]
  rfl

@[simp] theorem endsInLetter_underscore (s : String) : endsInLetter (s ++ "_") = false :=
  endsInLetter_append s (by decide)

@[simp] theorem endsInLetter_numbered (base : String) (n : Nat) :
    endsInLetter (Naming.numbered base n) = false := by
  have hdigits : (toString n).toList = Nat.toDigits 10 n := by
    rw [Nat.toString_eq_ofList_toDigits, String.toList_ofList]
  have hne : (toString n).toList ≠ [] := hdigits ▸ Nat.toDigits_ne_nil
  rw [Naming.numbered, endsInLetter_append _ hne, endsInLetter, hdigits,
    List.getLast?_eq_some_getLast Nat.toDigits_ne_nil, Option.any_some]
  have hdigit := Nat.isDigit_of_mem_toDigits (by decide) (by decide)
    (List.getLast_mem (Nat.toDigits_ne_nil (n := n) (b := 10)))
  exact forall_ascii (p := fun c => c.isDigit = true → c.isAlpha = false) (by decide +kernel)
    (toNat_lt_of_isPart (isPart_iff.2 (.inr hdigit))) hdigit

theorem endsInLetter_of_isReserved {s : String} (h : isReserved s = true) :
    endsInLetter s = true := by
  have hwords : ∀ w ∈ reservedWords, endsInLetter w = true := by decide +kernel
  exact hwords s (List.contains_iff_mem.1 h)

theorem endsInLetter_of_mem_libraryNames : ∀ s ∈ Ident.libraryNames, endsInLetter s = true := by
  decide

theorem isReserved_of_not_endsInLetter {s : String} (h : endsInLetter s = false) :
    isReserved s = false := by
  rw [Bool.eq_false_iff]
  intro hreserved
  rw [endsInLetter_of_isReserved hreserved] at h
  cases h

end SchemaStructs
