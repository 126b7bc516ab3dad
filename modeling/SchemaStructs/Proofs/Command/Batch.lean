import SchemaStructs.Proofs.Command.Select
import SchemaStructs.Proofs.Header.Emission

set_option autoImplicit false

namespace SchemaStructs

namespace Command

variable {manifest : Manifest} {document : Document} {requested : List String}

/-- The module is in force, and this is what becomes of it. -/
def Gives (manifest : Manifest) (document : Document) (requested : List String) (name : String)
    (result : Except HeaderError String) : Prop :=
  name ∈ namesInForce manifest document requested ∧ ∃ m, (name, m) ∈ document.modules.entries ∧
    m.generate manifest.options name = result.mapError Halt.failed

def Fails (manifest : Manifest) (document : Document) (requested : List String) : Prop :=
  ∃ name e, Gives manifest document requested name (.error e)

/-- Some module in force has types that are lowered on and on. -/
def Endless (manifest : Manifest) (document : Document) (requested : List String) : Prop :=
  ∃ name ∈ namesInForce manifest document requested, ∃ m, (name, m) ∈ document.modules.entries ∧
    NoEnd name m.aliases.entries m.methods

def failures (results : List Outcome) : List (String × HeaderError) :=
  results.filterMap Outcome.failed?

theorem failures_eq_nil_iff {results : List Outcome}
    (h : ∀ o, o ∈ results ↔ Gives manifest document requested o.name o.result) :
    failures results = [] ↔ ¬ Fails manifest document requested := by
  rw [failures, List.filterMap_eq_nil_iff]
  constructor
  · rintro hnone ⟨name, e, hgives⟩
    cases hnone ⟨name, .error e⟩ ((h ⟨name, .error e⟩).2 hgives)
  · rintro hfails ⟨name, result⟩ ho
    cases result with
    | ok header => rfl
    | error e => exact absurd ⟨name, e, (h ⟨name, .error e⟩).1 ho⟩ hfails

section

variable {selected : List (String × Module)}
  (hselect : select document manifest requested = .ok selected)

include hselect

/-- Just the modules in force have results, each its own, in the order of their names. -/
theorem outcomes_ok {results : List Outcome}
    (h : outcomes manifest.options selected = .ok results) :
    results.Pairwise (fun a b => a.name < b.name) ∧
      ∀ o, o ∈ results ↔ Gives manifest document requested o.name o.result := by
  have hnames : results.map (·.name) = selected.map (·.1) := map_mapM h fun x y hxy => by
    obtain ⟨r, -, hy⟩ := bind_eq_ok.1 hxy
    rw [← Except.ok.inj hy]
  constructor
  · rw [← List.pairwise_map, hnames, List.pairwise_map]
    exact pairwise_of_select hselect
  · obtain ⟨-, rfl⟩ := select_eq_ok_iff.1 hselect
    rintro ⟨name, result⟩
    simp only [mem_mapM_iff h, mem_entriesInForce, Gives, bind_eq_ok, pure_eq,
      Halt.attempt_eq_ok, Except.ok.injEq, Outcome.mk.injEq]
    constructor
    · rintro ⟨⟨_, m⟩, ⟨hm, hforce⟩, _, hresult, rfl, rfl⟩
      exact ⟨hforce, m, hm, hresult⟩
    · rintro ⟨hforce, m, hm, hresult⟩
      exact ⟨(name, m), ⟨hm, hforce⟩, result, hresult, rfl, rfl⟩

theorem outcomes_error {halt : Halt Failure}
    (h : outcomes manifest.options selected = .error halt) :
    halt = .endless ∧ Endless manifest document requested := by
  obtain ⟨-, rfl⟩ := select_eq_ok_iff.1 hselect
  obtain ⟨⟨name, m⟩, hmem, herror⟩ := exists_error_of_mapM h
  obtain ⟨hm, hforce⟩ := mem_entriesInForce.1 hmem
  simp only [bind_eq_error, Halt.attempt_eq_error, pure_eq, reduceCtorEq, and_false, exists_false,
    or_false] at herror
  exact ⟨herror.2, name, hforce, m, hm, (generate_endless_iff.1 herror.1).2⟩

theorem exists_outcomes (h : ¬ Endless manifest document requested) :
    ∃ results, outcomes manifest.options selected = .ok results := by
  cases houtcomes : outcomes manifest.options selected with
  | ok results => exact ⟨results, rfl⟩
  | error halt => exact absurd (outcomes_error hselect houtcomes).2 h

variable (hvalid : manifest.options.validate = .ok ())

include hvalid

theorem outcomes_endless (h : Endless manifest document requested) :
    outcomes manifest.options selected = .error .endless := by
  obtain ⟨name, hforce, m, hm, hends⟩ := h
  have hmem : (name, m) ∈ selected := by
    obtain ⟨-, rfl⟩ := select_eq_ok_iff.1 hselect
    exact mem_entriesInForce.2 ⟨hm, hforce⟩
  have hgenerate : m.generate manifest.options name = .error .endless :=
    generate_endless_iff.2 ⟨hvalid, hends⟩
  have hattempt : (do return (⟨name, ← Halt.attempt (m.generate manifest.options name)⟩ : Outcome) :
      Except (Halt Failure) Outcome) = .error .endless := by
    simp [hgenerate]
  obtain ⟨halt, hhalt⟩ : ∃ e, outcomes manifest.options selected = .error e :=
    mapM_eq_error hmem hattempt
  obtain ⟨rfl, -⟩ := outcomes_error hselect hhalt
  exact hhalt

end

end Command

end SchemaStructs
