import Mathlib.Control.Monad.Basic
import SchemaStructs.Proofs.Struct.Budget
import SchemaStructs.Proofs.Struct.Extends
import SchemaStructs.Proofs.Struct.Loops

set_option autoImplicit false

namespace SchemaStructs

variable {moduleName : String} {aliases : Aliases} {methods : List Method}

/-- The check accepts all types of the methods. -/
def Checked (aliases : Aliases) (methods : List Method) : Prop :=
  ∀ slot ∈ methods.flatMap Method.slots, ∃ g, slot.type.represent aliases = .ok g

/-- Lowering goes on and on: it comes to an end within no budget. -/
def NoEnd (moduleName : String) (aliases : Aliases) (methods : List Method) : Prop :=
  ∀ within : Aliases → Nat, collectWithin within moduleName aliases methods = .error .endless

/-- The budget does not run out, no larger one changes the answer, and once all types have passed
the check there are structs unless the schema is invalid or names run out. -/
structure Ends (moduleName : String) (aliases : Aliases) (methods : List Method) : Prop where
  inBudget : collectWithin budget moduleName aliases methods ≠ .error .endless
  settled : ∀ within : Aliases → Nat, (∀ g, budget g ≤ within g) →
    collectWithin within moduleName aliases methods =
      collectWithin budget moduleName aliases methods
  outcome : Checked aliases methods →
    (∃ structs, collect moduleName aliases methods = .ok structs) ∨
      ∃ e, collect moduleName aliases methods = .error (.failed e) ∧ e.Rejects

theorem loopReached_of_represent {slot : Slot} {g : Aliases}
    (hslot : slot ∈ methods.flatMap Method.slots) (h : slot.type.represent aliases = .ok g)
    (hloop : ¬ LoopFree g) : LoopReached aliases methods := by
  have hreach := reach_of_represent h
  have part := slot.type.reach_closed hreach
  simp only [LoopFree, Classical.not_forall, Classical.not_not] at hloop
  obtain ⟨n, hn, hcycle⟩ := hloop
  exact ⟨slot, hslot, n, (SchemaType.mem_reach hreach).1 hn, (part.onCycle_iff hn).1 hcycle⟩

section

variable {i : Nat} {rest : List (Slot × Aliases)}

def Represented (aliases : Aliases) (methods : List Method) (rest : List (Slot × Aliases)) : Prop :=
  ∀ e ∈ rest, e.1 ∈ methods.flatMap Method.slots ∧ e.1.type.represent aliases = .ok e.2

theorem Represented.zip {graphs : List Aliases}
    (h : (methods.flatMap Method.slots).mapM (·.type.represent aliases) = .ok graphs) :
    Represented aliases methods ((methods.flatMap Method.slots).zip graphs) := by
  intro e he
  obtain ⟨k, hk⟩ := List.mem_iff_getElem?.1 he
  obtain ⟨hslot, hcheck⟩ := (zip_mapM_ok h).1 hk
  exact ⟨List.mem_of_getElem? hslot, hcheck⟩

theorem mem_reach_of_represent {t : SchemaType} {g : Aliases} (h : t.represent aliases = .ok g)
    {r : Reference} (hr : r ∈ t.references) : r.target ∈ g.map (·.1) :=
  (SchemaType.mem_reach (reach_of_represent h)).2
    (SchemaType.reaches_target (SchemaType.mem_targets.2 ⟨r, hr, rfl⟩))

theorem lowerSlots_halts {P : Halt HeaderError → Prop} (hP : ∀ e, e.Rejects → P e)
    (hloop : LoopReached aliases methods → ∀ e, e.Recurs → P e)
    (hrest : Represented aliases methods rest) :
    Halts P (lowerSlots moduleName budget i rest) := by
  induction rest generalizing i with
  | nil => exact .pure _
  | cons e rest ih =>
    obtain ⟨slot, g⟩ := e
    obtain ⟨⟨hslot, hcheck⟩, hrest⟩ := List.forall_mem_cons.1 hrest
    rw [lowerSlots]
    split
    · exact ih hrest
    · refine (lowerType_halts hP slot.type fun r hr path pending' _ => ?_).bind fun f => ih hrest
      exact lowerAlias_halts hP (slot.type.reach_closed (reach_of_represent hcheck))
        (fun hnot => hloop (loopReached_of_represent hslot hcheck hnot)) _
        (mem_reach_of_represent hcheck hr) (Fits.start g pending' r.target (Nat.le_refl _))

theorem lowerSlots_exact (within : Aliases → Nat) (hrest : Represented aliases methods rest) :
    Extends (lowerSlots moduleName within i rest) (lowerSlots moduleName budget i rest) := by
  induction rest generalizing i with
  | nil => exact .refl _
  | cons e rest ih =>
    obtain ⟨slot, g⟩ := e
    obtain ⟨⟨-, hcheck⟩, hrest⟩ := List.forall_mem_cons.1 hrest
    rw [lowerSlots, lowerSlots]
    split
    · exact ih hrest
    · refine (lowerType_extends slot.type fun r hr path pending' _ => ?_).bind fun f => ih hrest
      exact lowerAlias_exact (slot.type.reach_closed (reach_of_represent hcheck)) _ _
        (mem_reach_of_represent hcheck hr) (Fits.start g pending' r.target (Nat.le_refl _))

end

theorem collectWithin_halts (hchecked : Checked aliases methods) {h : Halt HeaderError}
    (hrun : collectWithin budget moduleName aliases methods = .error h) :
    h.Rejects ∨ LoopReached aliases methods ∧ h.Recurs := by
  obtain ⟨graphs, hgraphs⟩ := mapM_eq_ok_iff.2 hchecked
  rw [collectWithin_eq hgraphs] at hrun
  split at hrun
  · cases hrun
  · next e herror =>
    cases hrun
    exact lowerSlots_halts (P := fun e => e.Rejects ∨ LoopReached aliases methods ∧ e.Recurs)
      (fun _ => .inl) (fun hloop _ he => .inr ⟨hloop, he⟩) (Represented.zip hgraphs) {} e herror

theorem exists_failed_of_not_checked (moduleName : String) (h : ¬ Checked aliases methods) :
    ∃ e, ∀ within, collectWithin within moduleName aliases methods = .error (.failed e) := by
  cases hgraphs : (methods.flatMap Method.slots).mapM (·.type.represent aliases) with
  | error e => exact ⟨e, fun within => by simp [collectWithin, hgraphs]⟩
  | ok graphs => exact absurd (mapM_eq_ok_iff.1 ⟨graphs, hgraphs⟩) h

theorem collectWithin_of_extends {within within' : Aliases → Nat} {graphs : List Aliases}
    (hgraphs : (methods.flatMap Method.slots).mapM (·.type.represent aliases) = .ok graphs)
    (h : Extends (lowerSlots moduleName within 0 ((methods.flatMap Method.slots).zip graphs))
      (lowerSlots moduleName within' 0 ((methods.flatMap Method.slots).zip graphs))) :
    collectWithin within' moduleName aliases methods =
        collectWithin within moduleName aliases methods ∨
      collectWithin within moduleName aliases methods = .error .endless := by
  rw [collectWithin_eq hgraphs, collectWithin_eq hgraphs]
  rcases h {} with hsame | ⟨s, hs⟩
  · exact .inl (by rw [hsame])
  · exact .inr (by rw [hs])

theorem collectWithin_extends {within within' : Aliases → Nat} (h : ∀ g, within g ≤ within' g) :
    collectWithin within' moduleName aliases methods =
        collectWithin within moduleName aliases methods ∨
      collectWithin within moduleName aliases methods = .error .endless := by
  by_cases hchecked : Checked aliases methods
  · obtain ⟨graphs, hgraphs⟩ := mapM_eq_ok_iff.2 hchecked
    exact collectWithin_of_extends hgraphs (lowerSlots_extends h 0 _)
  · obtain ⟨e, he⟩ := exists_failed_of_not_checked moduleName hchecked
    exact .inl (by rw [he, he])

theorem collect_endless_iff :
    collect moduleName aliases methods = .error .endless ↔ NoEnd moduleName aliases methods := by
  refine ⟨fun h within => ?_, fun h => h budget⟩
  by_cases hchecked : Checked aliases methods
  · obtain ⟨graphs, hgraphs⟩ := mapM_eq_ok_iff.2 hchecked
    rcases collectWithin_of_extends hgraphs (lowerSlots_exact within (Represented.zip hgraphs))
      with hsame | hends
    · exact hsame.symm.trans h
    · exact hends
  · obtain ⟨e, he⟩ := exists_failed_of_not_checked moduleName hchecked
    simp [collect, he] at h

theorem not_loopReached_of_ok {within : Aliases → Nat} {structs : List Struct}
    (h : collectWithin within moduleName aliases methods = .ok structs) :
    ¬ LoopReached aliases methods := by
  obtain ⟨s, hcomplete, -⟩ := exists_complete h
  exact hcomplete.not_loopReached

theorem Halt.not_recurs_of_rejects {h : Halt HeaderError} (hrejects : h.Rejects) : ¬ h.Recurs := by
  intro hrecurs
  cases h with
  | endless => exact hrejects
  | failed e => cases e <;> first | exact hrejects | exact hrecurs

theorem Ends.of_rejects (hhalts : ∀ h,
    collectWithin budget moduleName aliases methods = .error h → Checked aliases methods →
      h.Rejects) : Ends moduleName aliases methods := by
  have hinBudget : collectWithin budget moduleName aliases methods ≠ .error .endless := by
    intro hends
    by_cases hchecked : Checked aliases methods
    · exact hhalts _ hends hchecked
    · obtain ⟨e, he⟩ := exists_failed_of_not_checked moduleName hchecked
      simp [he] at hends
  refine ⟨hinBudget, fun within hwithin => ?_, fun hchecked => ?_⟩
  · exact (collectWithin_extends hwithin).resolve_right hinBudget
  · cases hrun : collectWithin budget moduleName aliases methods with
    | ok structs => exact .inl ⟨structs, hrun⟩
    | error h =>
      have hrejects := hhalts h hrun hchecked
      cases h with
      | endless => exact hrejects.elim
      | failed e => exact .inr ⟨e, hrun, hrejects⟩

theorem collect_ne_unknownAlias (hchecked : Checked aliases methods) (name : String) :
    collect moduleName aliases methods ≠ .error (.failed (.unknownAlias name)) := by
  intro h
  rcases collectWithin_halts hchecked h with hrejects | ⟨-, hrecurs⟩
  · exact hrejects
  · exact hrecurs

/-- Collecting ends as it should just if no references outside of objects go round behind types
that pass the check, or the schema is rejected for something else first. Where they do go round,
no budget leads to structs. Names without a definition never get past the check. -/
theorem collect_ends_iff (moduleName : String) (aliases : Aliases) (methods : List Method) :
    (Ends moduleName aliases methods ↔
      (Checked aliases methods → ¬ LoopReached aliases methods) ∨
        ∃ e, collect moduleName aliases methods = .error (.failed e) ∧ e.Rejects) ∧
    (LoopReached aliases methods → ∀ within structs,
      collectWithin within moduleName aliases methods ≠ .ok structs) ∧
    (Checked aliases methods → ∀ name,
      collect moduleName aliases methods ≠ .error (.failed (.unknownAlias name))) := by
  refine ⟨⟨fun hends => ?_, fun hcause => .of_rejects fun h hrun hchecked => ?_⟩,
    fun hloop within structs h => not_loopReached_of_ok h hloop, collect_ne_unknownAlias⟩
  · by_cases hchecked : Checked aliases methods
    · rcases hends.outcome hchecked with ⟨structs, hok⟩ | hrejects
      · exact .inl fun _ => not_loopReached_of_ok hok
      · exact .inr hrejects
    · exact .inl fun h => absurd h hchecked
  · rcases collectWithin_halts hchecked hrun with hrejects | ⟨hloop, hrecurs⟩
    · exact hrejects
    · rcases hcause with hfree | ⟨e, he, hrejects⟩
      · exact absurd hloop (hfree hchecked)
      · obtain rfl := Except.error.inj (hrun.symm.trans he)
        exact absurd hrecurs (Halt.not_recurs_of_rejects hrejects)

def loopBehindProperty : Aliases :=
  [("A", .object [⟨"p", .named "B", true⟩]), ("B", .named "C"), ("C", .named "C")]

def returning (name : String) : List Method := [⟨"f", [], .named name⟩]

@[simp] theorem slots_returning (name : String) : (returning name).flatMap Method.slots =
    [⟨["f", resultSegment], .named name, true⟩] := rfl

section

variable {g : Aliases} {n m : String}

theorem unfolds_array (hn : g.lookup n = some (.array (.named n))) :
    Relation.TransGen (Unfolds g) n n :=
  .single ⟨_, follow_of_lookup hn fun m => by simp, _, List.mem_singleton.2 rfl, rfl, rfl⟩

theorem lowerAlias_arrayBehind (moduleName : String) {p : String}
    (hm : g.lookup m = some (.object [⟨p, .named n, true⟩]))
    (hn : g.lookup n = some (.array (.named n))) (b : Nat) (path : List String) :
    (lowerAlias moduleName g b [] path m).run {} = .error ⟨.endless, {}⟩ := by
  have hfollow := follow_of_lookup hm fun m => by simp
  cases b with
  | zero => rfl
  | succ b =>
    rw [lowerAlias, hfollow]
    simp only [lowerProperties, lowerType, lowerAlias_endless (unfolds_array hn)]
    rfl

end

theorem noEnd_arrayBehindProperty : NoEnd "M" arrayBehindProperty (returning "A") := by
  obtain ⟨g, hg⟩ : ∃ g, (SchemaType.named "A").represent arrayBehindProperty = .ok g :=
    exists_of_isOk (by decide +kernel)
  have hreach := reach_of_represent hg
  have part := SchemaType.reach_closed hreach
  have hA : g.lookup "A" = some (.object [⟨"p", .named "B", true⟩]) := part.lookup_eq
    ((SchemaType.mem_reach hreach).2 (SchemaType.reaches_target (List.mem_singleton.2 rfl)))
  have hB : g.lookup "B" = some (.array (.named "B")) := part.lookup_eq
    (part.closed _ (mem_of_lookup hA) "B" (List.mem_singleton.2 rfl))
  have hgraphs : ((returning "A").flatMap Method.slots).mapM
      (·.type.represent arrayBehindProperty) = .ok [g] := by
    simp [hg]
  intro within
  have hlower := lowerAlias_arrayBehind "M" hA hB (within g) ["f", resultSegment]
  rw [collectWithin_eq hgraphs]
  simp [lowerSlots, SchemaType.isVoid, lowerType, hlower]

theorem collect_fails_behind_check :
    (¬ ∀ moduleName aliases methods, Checked aliases methods →
      (∃ structs, collect moduleName aliases methods = .ok structs) ∨
        ∃ e, collect moduleName aliases methods = .error (.failed e) ∧ e.Rejects) ∧
    ¬ ∀ moduleName aliases methods, ∃ within,
      collectWithin within moduleName aliases methods ≠ .error .endless := by
  constructor
  · intro houtcome
    have hchecked : Checked loopBehindProperty (returning "A") := by
      rw [Checked, slots_returning, List.forall_mem_singleton]
      exact exists_of_isOk (by decide +kernel)
    have hcollect : collect "M" loopBehindProperty (returning "A") =
        .error (.failed (.recursiveAlias "C" ["B", "C", "C"])) := by decide +kernel
    rcases houtcome "M" _ _ hchecked with ⟨structs, hok⟩ | ⟨e, he, hrejects⟩
    · rw [hcollect] at hok
      cases hok
    · rw [hcollect, Except.error.injEq, Halt.failed.injEq] at he
      rw [← he] at hrejects
      exact hrejects
  · intro hends
    obtain ⟨within, hwithin⟩ := hends "M" arrayBehindProperty (returning "A")
    exact hwithin (noEnd_arrayBehindProperty within)

end SchemaStructs
