import Mathlib.Tactic.IntervalCases
import SchemaStructs.Manifest
import SchemaStructs.Proofs.Outcome
import SchemaStructs.Proofs.Text.Word

set_option autoImplicit false

namespace SchemaStructs

/-- The name stands for an entry of a directory: it is neither the directory itself nor the one
above, and leads through no other. -/
structure IsEntryName (s : String) : Prop where
  nonempty : s ≠ ""
  notDot : s ≠ "."
  notDots : s ≠ ".."
  noSlash : '/' ∉ s.toList

theorem eq_dots_of_forall {s : String} (hdots : ∀ c ∈ s.toList, c = '.')
    (hlength : s.toList.length ≤ 2) : s = "" ∨ s = "." ∨ s = ".." := by
  have hchars := List.eq_replicate_iff.2 ⟨rfl, hdots⟩
  rw [← String.toList_inj, ← String.toList_inj, ← String.toList_inj]
  generalize s.toList.length = n at *
  interval_cases n
  · exact .inl hchars
  · exact .inr (.inl hchars)
  · exact .inr (.inr hchars)

namespace Manifest

variable {m : Manifest}

theorem validate_eq_ok_iff : m.validate = .ok () ↔
    m.options.validate = .ok () ∧ m.output.directory.isEmpty = false ∧
      holds modulePlaceholder m.output.filePattern = true ∧
      m.output.filePattern.toList.any isSeparator = false ∧
      (m.modules.getD []).contains "" = false := by
  unfold validate
  cases m.options.validate with
  | error e => simp [throw, throwThe, MonadExceptOf.throw, bind, Except.bind]
  | ok u =>
    simp only [throw, throwThe, MonadExceptOf.throw, bind, Except.bind, pure, Except.pure]
    cases m.output.directory.isEmpty <;> cases holds modulePlaceholder m.output.filePattern <;>
      cases m.output.filePattern.toList.any isSeparator <;>
      cases (m.modules.getD []).contains "" <;> simp

@[simp] theorem toList_fileName (m : Manifest) (moduleName : String) :
    (m.fileName moduleName).toList = moduleName.toList.intercalate
      (piecesFrom modulePlaceholder.toList 0 m.output.filePattern.toList) := by
  rw [fileName, toList_substitute, intercalate_piecesFrom]

theorem two_le_pieces (h : holds modulePlaceholder m.output.filePattern = true) :
    1 < (piecesFrom modulePlaceholder.toList 0 m.output.filePattern.toList).length := by
  simpa [holds, pieces] using h

theorem fileName_injective (h : holds modulePlaceholder m.output.filePattern = true) :
    Function.Injective m.fileName := by
  intro a b heq
  have hchars := congrArg String.toList heq
  rw [toList_fileName, toList_fileName] at hchars
  exact String.toList_inj.1 (intercalate_injective (two_le_pieces h) hchars)

theorem infix_fileName (h : holds modulePlaceholder m.output.filePattern = true)
    (moduleName : String) : moduleName.toList <:+: (m.fileName moduleName).toList := by
  rw [toList_fileName]
  exact infix_intercalate _ (two_le_pieces h)

/-- The characters of a file name are those of the module's name and of the pattern. -/
theorem mem_fileName {moduleName : String} {c : Char}
    (h : c ∈ (m.fileName moduleName).toList) :
    c ∈ moduleName.toList ∨ c ∈ m.output.filePattern.toList := by
  refine (mem_intercalate h).imp id fun ⟨piece, hpiece, hc⟩ => ?_
  have hjoined : modulePlaceholder.intercalate (pieces modulePlaceholder m.output.filePattern) =
      m.output.filePattern := intercalate_pieces (by decide) m.output.filePattern
  rw [← hjoined, String.toList_intercalate]
  exact mem_intercalate_of_mem _ (List.mem_map_of_mem hpiece) hc

theorem separator_fileName (h : m.validate = .ok ()) {moduleName : String} {c : Char}
    (hc : c ∈ (m.fileName moduleName).toList) (hseparator : isSeparator c = true) :
    c ∈ moduleName.toList := by
  obtain ⟨-, -, -, hpattern, -⟩ := validate_eq_ok_iff.1 h
  refine (mem_fileName hc).resolve_right fun hpart => ?_
  exact List.any_eq_false.1 hpattern c hpart hseparator

theorem isEntryName_fileName (h : m.validate = .ok ()) {moduleName : String}
    (hname : IsEntryName moduleName) : IsEntryName (m.fileName moduleName) := by
  obtain ⟨-, -, hholds, -, -⟩ := validate_eq_ok_iff.1 h
  have hpart := infix_fileName hholds moduleName
  -- A name of dots only would have to be as short as that of the module, which is then dots too.
  have hdots : ∀ s, m.fileName moduleName = s → s.toList.length ≤ 2 →
      ¬ ∀ c ∈ s.toList, c = '.' := by
    rintro s rfl hlength hall
    rcases eq_dots_of_forall (fun c hc => hall c (hpart.subset hc))
      (hpart.length_le.trans hlength) with h | h | h
    · exact hname.nonempty h
    · exact hname.notDot h
    · exact hname.notDots h
  refine ⟨fun h => hdots _ h (by decide) (by simp), fun h => hdots _ h (by decide) (by simp),
    fun h => hdots _ h (by decide) (by simp), fun hslash => ?_⟩
  exact hname.noSlash (separator_fileName h hslash (by decide))

end Manifest

end SchemaStructs
