import SchemaStructs.Command.Select
import SchemaStructs.Proofs.Manifest

set_option autoImplicit false

namespace SchemaStructs

/-- The names asked for, or else those of the manifest, or else all. -/
def namesInForce (manifest : Manifest) (document : Document) (requested : List String) :
    List String :=
  if requested = [] then manifest.modules.getD document.modules.names else requested

structure UsableName (name : String) : Prop extends IsEntryName name where
  noBackslash : '\\' ∉ name.toList
  noNull : '\x00' ∉ name.toList

theorem checkModuleName_eq_ok_iff {name : String} :
    checkModuleName name = .ok () ↔ UsableName name := by
  unfold checkModuleName
  constructor
  · intro h
    split at h
    · cases h
    · next hdots =>
      split at h
      · cases h
      · next hchars =>
        simp only [Bool.or_eq_true, beq_iff_eq, not_or] at hdots
        simp only [List.any_eq_true, Manifest.isSeparator, Bool.or_eq_true, beq_iff_eq] at hchars
        refine ⟨⟨hdots.1.1, hdots.1.2, hdots.2, fun hc => ?_⟩, fun hc => ?_, fun hc => ?_⟩
        · exact hchars ⟨_, hc, by simp⟩
        · exact hchars ⟨_, hc, by simp⟩
        · exact hchars ⟨_, hc, by simp⟩
  · intro h
    rw [if_neg, if_neg]
    · simp only [List.any_eq_true, Manifest.isSeparator, Bool.or_eq_true, beq_iff_eq]
      rintro ⟨c, hc, (rfl | rfl) | rfl⟩
      · exact h.noSlash hc
      · exact h.noBackslash hc
      · exact h.noNull hc
    · simp [h.nonempty, h.notDot, h.notDots]

instance (name : String) : Decidable (UsableName name) :=
  decidable_of_iff _ checkModuleName_eq_ok_iff

variable {manifest : Manifest} {document : Document} {requested : List String}

theorem wanted?_cases (manifest : Manifest) (document : Document) (requested : List String) :
    wanted? manifest requested = none ∧
        namesInForce manifest document requested = document.modules.names ∨
      wanted? manifest requested = some (namesInForce manifest document requested) := by
  unfold wanted? namesInForce
  by_cases hrequested : requested = []
  · subst hrequested
    cases manifest.modules with
    | none => exact .inl ⟨rfl, rfl⟩
    | some names => exact .inr rfl
  · exact .inr (by simp [hrequested])

/-- The modules in force, in the order of the document, no matter how their list is written. -/
def entriesInForce (manifest : Manifest) (document : Document) (requested : List String) :
    List (String × Module) :=
  document.modules.entries.filter fun e => e.1 ∈ namesInForce manifest document requested

theorem mem_entriesInForce {e : String × Module} :
    e ∈ entriesInForce manifest document requested ↔
      e ∈ document.modules.entries ∧ e.1 ∈ namesInForce manifest document requested := by
  rw [entriesInForce, List.mem_filter, decide_eq_true_iff]

theorem select_eq_error {name : String} (hname : name ∈ namesInForce manifest document requested)
    (h : name ∉ document.modules.names) : ∃ e, select document manifest requested = .error e := by
  rcases wanted?_cases manifest document requested with ⟨-, hall⟩ | hwanted
  · rw [hall] at hname
    exact absurd hname h
  · cases hfind : (namesInForce manifest document requested).find?
        (!document.modules.contains ·) with
    | some missing =>
      simp only [select, hwanted, Option.getD_some, hfind]
      exact ⟨_, rfl⟩
    | none =>
      have hthere := List.find?_eq_none.1 hfind name hname
      simp [NameMap.contains, h] at hthere

theorem select_eq (h : ∀ name ∈ namesInForce manifest document requested,
    name ∈ document.modules.names) : select document manifest requested = do
      (entriesInForce manifest document requested).forM fun e => checkModuleName e.1
      return entriesInForce manifest document requested := by
  rcases wanted?_cases manifest document requested with ⟨hwanted, hall⟩ | hwanted
  · have hentries : entriesInForce manifest document requested = document.modules.entries := by
      refine List.filter_eq_self.2 fun e he => ?_
      have hmem : e.1 ∈ document.modules.names := List.mem_map_of_mem he
      simpa [hall] using hmem
    simp only [select, hwanted, Option.getD_none, List.find?_nil, List.filter_true, hentries]
  · have hfind : (namesInForce manifest document requested).find?
        (!document.modules.contains ·) = none := by simpa [NameMap.contains] using h
    simp only [select, hwanted, Option.getD_some, hfind, List.contains_eq_mem, entriesInForce]

theorem select_eq_ok_iff {selected : List (String × Module)} :
    select document manifest requested = .ok selected ↔
      (∀ name ∈ namesInForce manifest document requested,
        name ∈ document.modules.names ∧ UsableName name) ∧
      selected = entriesInForce manifest document requested := by
  by_cases hknown : ∀ name ∈ namesInForce manifest document requested,
      name ∈ document.modules.names
  · rw [select_eq hknown, bind_eq_ok]
    constructor
    · rintro ⟨⟨⟩, hchecked, h⟩
      refine ⟨fun name hname => ⟨hknown name hname, ?_⟩, (Except.ok.inj h).symm⟩
      obtain ⟨e, he, rfl⟩ := List.mem_map.1 (hknown name hname)
      exact checkModuleName_eq_ok_iff.1
        (forM_eq_ok hchecked e (mem_entriesInForce.2 ⟨he, hname⟩))
    · rintro ⟨hnames, rfl⟩
      exact ⟨(), forM_eq_ok_iff.2 fun e he => checkModuleName_eq_ok_iff.2
        (hnames e.1 (mem_entriesInForce.1 he).2).2, rfl⟩
  · push Not at hknown
    obtain ⟨name, hname, hmissing⟩ := hknown
    obtain ⟨e, he⟩ := select_eq_error hname hmissing
    rw [he]
    exact ⟨nofun, fun h => absurd (h.1 name hname).1 hmissing⟩

/-- Lists with the same names in them, in any order and as often as may be, select the same. -/
theorem select_congr {manifest' : Manifest} {requested' : List String}
    (h : ∀ name, name ∈ namesInForce manifest' document requested' ↔
      name ∈ namesInForce manifest document requested) {selected : List (String × Module)} :
    select document manifest' requested' = .ok selected ↔
      select document manifest requested = .ok selected := by
  simp only [select_eq_ok_iff, entriesInForce, h]

theorem pairwise_of_select {selected : List (String × Module)}
    (h : select document manifest requested = .ok selected) :
    selected.Pairwise fun a b => a.1 < b.1 := by
  obtain ⟨-, rfl⟩ := select_eq_ok_iff.1 h
  exact document.modules.sorted.filter _

end SchemaStructs
