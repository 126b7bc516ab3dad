import SchemaStructs.Proofs.Ending
import SchemaStructs.Proofs.Struct.Blame

/-!
What a module is rejected for. Where all aliases are defined and every cycle of them crosses a
property and has a guard, there are structs unless something that the methods reach is wrong or
names run out, and what is reported is the first thing that is wrong.
-/

set_option autoImplicit false

namespace SchemaStructs

open Relation

variable {aliases : Aliases} {methods : List Method}

theorem defined_of_isOk {slots : List Slot}
    (h : ∀ slot ∈ slots, (slot.type.represent aliases).isOk = true) :
    ∀ slot ∈ slots, Defined aliases slot.type :=
  fun slot hslot => (represent_eq_ok_iff.1 (exists_of_isOk (h slot hslot))).1

def Offending (aliases : Aliases) (methods : List Method) : Prop :=
  ∃ site t d, Occurs aliases methods site t ∧ SchemaType.Offends t d

/-- The way through the types of the methods comes to this offence first. -/
def FirstOffence (aliases : Aliases) (methods : List Method) (o : Offence) : Prop :=
  Survey aliases (slotVisits 0 (methods.flatMap Method.slots)) (some o)

/-- Lowering the types stops since all forms of this name are taken. They are the names of structs
that are there or are still to come. -/
def Exhausts (moduleName : String) (aliases : Aliases) (methods : List Method) (base : String) :
    Prop :=
  ∃ graphs s, (methods.flatMap Method.slots).mapM (·.type.represent aliases) = .ok graphs ∧
    (lowerSlots moduleName budget 0 ((methods.flatMap Method.slots).zip graphs)).run {} =
      .error ⟨.failed (.namesExhausted base Naming.maxNumber), s⟩ ∧
    (∀ n ∈ Naming.candidates base Naming.maxNumber, n ∈ s.taken) ∧
    s.taken.Perm (s.structs.map (·.name) ++ s.reserved.map (·.2))

section

variable (hdefined : ∀ slot ∈ methods.flatMap Method.slots, Defined aliases slot.type)
  (hcycles : ∀ slot ∈ methods.flatMap Method.slots, ∀ n,
    Reaches aliases Reference.any slot.type n → ¬ OnBadCycle aliases n)

include hcycles

theorem not_loopReached_of_cycles : ¬ LoopReached aliases methods := by
  rintro ⟨slot, hslot, n, hn, hcycle⟩
  exact hcycles slot hslot n hn (.inr hcycle)

include hdefined

theorem checked_of_cycles : Checked aliases methods := by
  refine fun slot hslot => represent_eq_ok_iff.2 ⟨hdefined slot hslot, ?_⟩
  rintro ⟨keep, hkeep, n, hn, hcycle⟩
  refine hcycles slot hslot n hn.any ?_
  rcases List.mem_pair.1 hkeep with rfl | rfl
  · exact .inl hcycle
  · exact .inr hcycle

theorem rejects_of_cycles {moduleName : String} {h : Halt HeaderError}
    (hrun : collectWithin budget moduleName aliases methods = .error h) : h.Rejects :=
  (collectWithin_halts (checked_of_cycles hdefined hcycles) hrun).resolve_right fun hloop =>
    not_loopReached_of_cycles hcycles hloop.1

/-- Collecting ends. It gives structs unless something that the methods reach is wrong, and then
reports what the way through their types comes to first, unless it asks for a name before of which
all forms are taken. -/
theorem collect_rejects_first (moduleName : String) :
    Ends moduleName aliases methods ∧
      ((¬ Offending aliases methods ∧ ∃ structs, collect moduleName aliases methods = .ok structs) ∨
        (∃ o, FirstOffence aliases methods o ∧ (∀ o', FirstOffence aliases methods o' → o' = o) ∧
          Offending aliases methods ∧
          collect moduleName aliases methods =
            .error (.failed (.invalidAt o.path o.defect))) ∨
        ∃ base, Exhausts moduleName aliases methods base ∧
          collect moduleName aliases methods =
            .error (.failed (.namesExhausted base Naming.maxNumber))) := by
  refine ⟨.of_rejects fun h hrun _ => rejects_of_cycles hdefined hcycles hrun, ?_⟩
  obtain ⟨graphs, hgraphs⟩ := mapM_eq_ok_iff.2 (checked_of_cycles hdefined hcycles)
  have hlisted := listed_zip hgraphs
  have hrun : collectWithin budget moduleName aliases methods = _ := collectWithin_eq hgraphs
  split at hrun
  · next r hok =>
    have hsurvey := lowerSlots_survey hlisted .initial hok
    rw [slots_zip hgraphs] at hsurvey
    refine .inl ⟨?_, _, hrun⟩
    rintro ⟨site, t, d, hocc, hd⟩
    exact hsurvey.not_offends_of_occurs hocc hd
  · next e herror =>
    have hblames := lowerSlots_blames hlisted .initial herror
    rw [slots_zip hgraphs] at hblames
    cases hblames with
    | @offence o s h =>
      refine .inr (.inl ⟨o, h, fun o' h' => Option.some.inj (h'.unique h), ?_, hrun⟩)
      obtain ⟨site, t, hocc, hd⟩ := h.exists_occurs slotVisits_occurs
      exact ⟨site, t, _, hocc, hd⟩
    | @exhausted pending s p reached mem taken =>
      exact .inr (.inr ⟨p.base, ⟨graphs, s, hgraphs, herror, taken,
        (Steps.invariant reached .initial).booked.taken⟩, hrun⟩)
    | other h => exact absurd (rejects_of_cycles hdefined hcycles hrun) h

end

/-- Two objects, each a property of the other; an enum without members within the second, and
behind it a void that is not literally a result. -/
def offendingAliases : Aliases :=
  [("A", .object [⟨"next", .named "B", true⟩]),
    ("B", .object [⟨"next", .named "A", true⟩,
      ⟨"tags", .array (.object [⟨"tag", .enum [], false⟩]), false⟩]),
    ("V", .scalar .void)]

def offendingMethods : List Method :=
  [⟨"get", [⟨"query", .object [⟨"start", .named "B", false⟩, ⟨"stop", .named "A", false⟩]⟩],
    .named "V"⟩]

def offendingPath : List String := ["get", "query", "start", "tags", "element", "tag"]

theorem not_onBadCycle_of_guarded {aliases : Aliases}
    (h : ∀ e ∈ aliases, ∀ r ∈ e.2.references, r.guarded = true ∧ r.crossesProperty = true)
    (n : String) : ¬ OnBadCycle aliases n := by
  have hnone : ∀ keep, (∀ r : Reference, r.guarded = true → r.crossesProperty = true →
      keep r = false) → ¬ OnCycle aliases keep n := by
    intro keep hkeep hcycle
    obtain ⟨m, ⟨body, hbody, r, hr, hkept, -⟩, -⟩ := TransGen.head'_iff.1 hcycle
    obtain ⟨hguarded, hcrosses⟩ := h _ (mem_of_lookup hbody) r hr
    simp [hkeep r hguarded hcrosses] at hkept
  rintro (hcycle | hcycle)
  · exact hnone _ (fun r h _ => by simp [Reference.unguarded, h]) hcycle
  · exact hnone _ (fun r _ h => by simp [Reference.outsideObjects, h]) hcycle

theorem collect_rejects_first_mutual :
    collect "M" offendingAliases offendingMethods =
        .error (.failed (.invalidAt offendingPath .emptyEnum)) ∧
      FirstOffence offendingAliases offendingMethods ⟨offendingPath, .emptyEnum⟩ := by
  have hcollect : collect "M" offendingAliases offendingMethods =
      .error (.failed (.invalidAt offendingPath .emptyEnum)) := by decide +kernel
  have hdefined : ∀ slot ∈ offendingMethods.flatMap Method.slots,
      Defined offendingAliases slot.type := defined_of_isOk (by decide +kernel)
  have hcycles : ∀ slot ∈ offendingMethods.flatMap Method.slots, ∀ n,
      Reaches offendingAliases Reference.any slot.type n → ¬ OnBadCycle offendingAliases n :=
    fun _ _ n _ => not_onBadCycle_of_guarded (by decide +kernel) n
  obtain ⟨-, ⟨-, structs, hok⟩ | ⟨o, hfirst, -, -, hreported⟩ | ⟨base, -, hexhausted⟩⟩ :=
    collect_rejects_first hdefined hcycles "M"
  · rw [hcollect] at hok
    cases hok
  · rw [hcollect, Except.error.injEq, Halt.failed.injEq,
      HeaderError.invalidAt.injEq] at hreported
    obtain ⟨path, defect⟩ := o
    obtain ⟨rfl, rfl⟩ := hreported
    exact ⟨hcollect, hfirst⟩
  · rw [hcollect] at hexhausted
    cases hexhausted

end SchemaStructs
