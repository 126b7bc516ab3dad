import SchemaStructs.Header
import SchemaStructs.Proofs.Collect
import SchemaStructs.Proofs.Ending
import SchemaStructs.Proofs.Options

set_option autoImplicit false

namespace SchemaStructs

@[simp] theorem Ident.length_assign (structs used keys : List String) :
    (assign structs used keys).length = keys.length := by
  induction keys generalizing used with
  | nil => rfl
  | cons key keys ih => simp [assign, ih]

def completeAt (all : List Struct) (s : Struct) : List String :=
  (all.map (·.name)).takeWhile (· != s.name)

def Struct.idents (all : List Struct) (s : Struct) : List String :=
  Ident.assign (all.map (·.name)) [] (s.fields.map (·.name))

def Field.member (complete : List String) (f : Field) (ident : String) : CppMember :=
  ⟨f.name, ident, CppType.ofField (complete.contains ·) f, f.optional⟩

def Struct.toCpp (all : List Struct) (s : Struct) : CppStruct :=
  ⟨s.name, (s.fields.zip (s.idents all)).map fun (f, ident) => f.member (completeAt all s) ident⟩

@[simp] theorem Struct.length_idents (all : List Struct) (s : Struct) :
    (s.idents all).length = s.fields.length := by
  simp [idents]

@[simp] theorem Struct.idents_toCpp (all : List Struct) (s : Struct) :
    (s.toCpp all).members.map (·.ident) = s.idents all := by
  rw [toCpp, List.map_map]
  exact List.map_snd_zip (Nat.le_of_eq (s.length_idents all))

theorem eq_toCpp {all : List Struct} {s : Struct} {cpp : CppStruct}
    (h : CppStruct.ofStruct all s = .ok cpp) : cpp = s.toCpp all := by
  simp only [CppStruct.ofStruct] at h
  split at h
  · split at h
    · cases h
    · cases h
      rfl
  · cases h

theorem ofStruct_eq {all : List Struct} (hlinked : Linked all) {s : Struct} (hs : s ∈ all) :
    CppStruct.ofStruct all s = .ok (s.toCpp all) := by
  have hname : (all.map (·.name)).contains s.name = true := by
    simpa using ⟨s, hs, rfl⟩
  have hrefs : s.dependencies.find? (!(all.map (·.name)).contains ·) = none := by
    refine List.find?_eq_none.2 fun name hmem => ?_
    obtain ⟨k, hk⟩ := Struct.mem_dependencies.1 hmem
    simpa using hlinked.closed s hs k name hk
  simp only [CppStruct.ofStruct, hname, hrefs, if_true]
  rfl

variable {options : Options} {moduleName : String} {aliases : Aliases} {methods : List Method}

theorem linked_of_collect {structs : List Struct}
    (h : collect moduleName aliases methods = .ok structs) : Linked structs := by
  obtain ⟨s, hcomplete, rfl⟩ := exists_complete h
  exact linked_mergeEquivalent hcomplete.linked

/-- Once the options are valid and the structs are collected, nothing can fail. -/
theorem generate_eq (options : Options) (moduleName : String) (aliases : Aliases)
    (methods : List Method) :
    generate options moduleName aliases methods = (do
      options.validate.mapError Halt.failed
      let structs ← collect moduleName aliases methods
      return renderHeader moduleName options (structs.map (Struct.toCpp structs))) := by
  simp only [generate]
  cases hcollect : collect moduleName aliases methods with
  | error e => rfl
  | ok structs =>
    have hemit := mapM_eq_ok_map fun s hs => ofStruct_eq (linked_of_collect hcollect) (s := s) hs
    simp only [ok_bind, hemit, mapError_ok]

/-- The generator itself is not at fault for a reference without a struct. -/
def HeaderError.IsUnknownStruct : HeaderError → Prop
  | .unknownStruct _ => True
  | _ => False

theorem represent_error {t : SchemaType} {e : HeaderError}
    (h : t.represent aliases = .error e) : ¬ e.IsUnknownStruct := by
  unfold SchemaType.represent at h
  cases hreach : t.reach aliases with
  | error e' =>
    simp only [hreach, error_bind, Except.error.injEq] at h
    obtain ⟨n, rfl, -⟩ := reachFrom_error hreach fun n hn => SchemaType.reaches_target hn
    rw [← h]
    exact not_false
  | ok g =>
    simp only [hreach, ok_bind] at h
    split at h
    · rw [← Except.error.inj h]
      exact not_false
    · cases h

theorem collect_error {e : HeaderError}
    (h : collect moduleName aliases methods = .error (.failed e)) : ¬ e.IsUnknownStruct := by
  by_cases hchecked : Checked aliases methods
  · rcases collectWithin_halts hchecked h with hrejects | ⟨-, hrecurs⟩
    · cases e <;> first | exact hrejects.elim | exact not_false
    · cases e <;> first | exact hrecurs.elim | exact not_false
  · cases hgraphs : (methods.flatMap Method.slots).mapM (·.type.represent aliases) with
    | ok graphs => exact absurd (mapM_eq_ok_iff.1 ⟨graphs, hgraphs⟩) hchecked
    | error e' =>
      simp only [collect, collectWithin, hgraphs, mapError_error, error_bind, Except.error.injEq,
        Halt.failed.injEq] at h
      obtain ⟨slot, -, hslot⟩ := exists_error_of_mapM hgraphs
      exact h ▸ represent_error hslot

theorem generate_eq_ok_iff : (∃ header, generate options moduleName aliases methods = .ok header) ↔
    options.validate = .ok () ∧ ∃ structs, collect moduleName aliases methods = .ok structs := by
  rw [generate_eq]
  cases options.validate with
  | error e => simp
  | ok _ => cases collect moduleName aliases methods <;> simp

theorem exists_of_generate {header : String}
    (h : generate options moduleName aliases methods = .ok header) :
    options.validate = .ok () ∧ ∃ structs, collect moduleName aliases methods = .ok structs ∧
      header = renderHeader moduleName options (structs.map (Struct.toCpp structs)) := by
  rw [generate_eq] at h
  obtain ⟨⟨⟩, hvalid, h⟩ := bind_eq_ok.1 h
  obtain ⟨structs, hcollect, h⟩ := bind_eq_ok.1 h
  exact ⟨mapError_eq_ok.1 hvalid, structs, hcollect, (Except.ok.inj h).symm⟩

theorem generate_eq_failed_iff {e : HeaderError} :
    generate options moduleName aliases methods = .error (.failed e) ↔
      options.validate = .error e ∨
        options.validate = .ok () ∧ collect moduleName aliases methods = .error (.failed e) := by
  rw [generate_eq]
  cases options.validate <;> simp

theorem generate_endless_iff :
    generate options moduleName aliases methods = .error .endless ↔
      options.validate = .ok () ∧ NoEnd moduleName aliases methods := by
  rw [generate_eq, ← collect_endless_iff]
  cases options.validate <;> simp

theorem generate_failed {e : HeaderError}
    (h : generate options moduleName aliases methods = .error (.failed e)) :
    ¬ e.IsUnknownStruct := by
  rcases generate_eq_failed_iff.1 h with h | ⟨-, h⟩
  · obtain ⟨d, rfl⟩ := Options.validate_error h
    exact not_false
  · exact collect_error h

theorem mem_of_generate {d : Document} {results : List (String × Except HeaderError String)}
    (h : d.generate options = .ok results) {entry : String × Except HeaderError String}
    (hentry : entry ∈ results) : ∃ m, (entry.1, m) ∈ d.modules.entries ∧
      m.generate options entry.1 = entry.2.mapError Halt.failed := by
  obtain ⟨⟨name, m⟩, hm, hresult⟩ := (mem_mapM_iff h).1 hentry
  obtain ⟨result, hattempt, hresult⟩ := bind_eq_ok.1 hresult
  obtain rfl := Except.ok.inj hresult
  exact ⟨m, hm, Halt.attempt_eq_ok.1 hattempt⟩

/-- A header fails only as its options or the structs of its types do, and never for a reference
without a struct, as each reference has just one; and where the types have no end, it has none. -/
theorem generate_outcome (options : Options) (moduleName : String) (aliases : Aliases)
    (methods : List Method) :
    ((∃ header, generate options moduleName aliases methods = .ok header) ↔
      options.validate = .ok () ∧ ∃ structs, collect moduleName aliases methods = .ok structs) ∧
    (∀ e, generate options moduleName aliases methods = .error (.failed e) ↔
      options.validate = .error e ∨
        options.validate = .ok () ∧ collect moduleName aliases methods = .error (.failed e)) ∧
    (generate options moduleName aliases methods = .error .endless ↔
      options.validate = .ok () ∧ NoEnd moduleName aliases methods) ∧
    (∀ name, generate options moduleName aliases methods ≠ .error (.failed (.unknownStruct name))) ∧
    (∀ d : Document, ∀ results, d.generate options = .ok results → ∀ entry ∈ results, ∀ name,
      entry.2 ≠ .error (.unknownStruct name)) ∧
    ∀ structs, collect moduleName aliases methods = .ok structs → ∀ s ∈ structs,
      ∀ f ∈ s.fields, ∀ name, f.type.ref? = some name →
        (structs.map (·.name)).count name = 1 := by
  refine ⟨generate_eq_ok_iff, fun e => generate_eq_failed_iff, generate_endless_iff,
    fun name h => generate_failed h trivial, fun d results h entry hentry name herror => ?_,
    fun structs hcollect s hs f hf name href => ?_⟩
  · obtain ⟨m, -, hm⟩ := mem_of_generate h hentry
    rw [herror, mapError_error] at hm
    exact generate_failed hm trivial
  · have hlinked := linked_of_collect hcollect
    obtain ⟨k, hk⟩ := exists_refAt_iff.2 ⟨f, hf, href⟩
    exact List.count_eq_one_of_mem hlinked.distinct (hlinked.closed s hs k name hk)

theorem generate_outcome_mutual :
    (∃ header, generate {} "M" mutualAliases mutualMethods = .ok header) ∧
      (mutualStructs.map (·.name)).count "M_A" = 1 := by
  have h : collect "M" mutualAliases mutualMethods = .ok mutualStructs := by decide +kernel
  obtain ⟨hok, -, -, -, -, hcount⟩ := generate_outcome {} "M" mutualAliases mutualMethods
  exact ⟨hok.2 ⟨by decide +kernel, mutualStructs, h⟩,
    hcount mutualStructs h _ List.mem_cons_self _ List.mem_cons_self _ rfl⟩

end SchemaStructs
