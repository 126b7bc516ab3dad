import SchemaStructs.Proofs.Alias.Representable
import SchemaStructs.Proofs.Outcome
import SchemaStructs.Proofs.Struct.Run
import SchemaStructs.Struct.Collect

set_option autoImplicit false

namespace SchemaStructs

open Relation Lowering

variable {moduleName : String} {aliases : Aliases} {methods : List Method}

/-- The list goes through the method types from number `i` on, each with aliases that are closed. -/
def Listed (aliases : Aliases) (methods : List Method) (i : Nat) (rest : List (Slot × Aliases)) :
    Prop :=
  ∀ k slot g, rest[k]? = some (slot, g) →
    (methods.flatMap Method.slots)[i + k]? = some slot ∧ ClosedPart aliases g

namespace Listed

variable {i : Nat} {xs ys : List (Slot × Aliases)}

theorem left (h : Listed aliases methods i (xs ++ ys)) : Listed aliases methods i xs := by
  intro k slot g hk
  refine h k slot g ?_
  rw [List.getElem?_append_left (List.getElem?_eq_some_iff.1 hk).1, hk]

theorem right (h : Listed aliases methods i (xs ++ ys)) :
    Listed aliases methods (i + xs.length) ys := by
  intro k slot g hk
  rw [Nat.add_assoc]
  refine h _ slot g ?_
  rw [List.getElem?_append_right (Nat.le_add_right _ _), Nat.add_sub_cancel_left, hk]

theorem tail {slot : Slot} {g : Aliases} {rest : List (Slot × Aliases)}
    (h : Listed aliases methods i ((slot, g) :: rest)) : Listed aliases methods (i + 1) rest :=
  @right aliases methods i [(slot, g)] rest h

theorem met {slot : Slot} {g : Aliases} {rest : List (Slot × Aliases)}
    (h : Listed aliases methods i ((slot, g) :: rest))
    (hvalue : (slot.isResult && slot.type.isVoid) = false) :
    Met aliases methods [] ⟨.slot i, []⟩ slot.type :=
  ⟨.slot (h 0 slot g rfl).1 hvalue, by simp⟩

end Listed

theorem lowerSlots_steps {within : Aliases → Nat}
    (rest : List (Slot × Aliases)) (i : Nat) {s s' : Collected}
    (hrest : Listed aliases methods i rest) (hi : Invariant aliases methods ([], s))
    (h : (lowerSlots moduleName within i rest).run s = .ok ((), s')) :
    Steps moduleName aliases methods ([], s) ([], s') ∧ ∀ k slot g, rest[k]? = some (slot, g) →
      (slot.isResult && slot.type.isVoid) = false →
        ∃ f, Lowers aliases s'.Names ⟨.slot (i + k), []⟩ slot.type f := by
  induction rest generalizing i s with
  | nil =>
    obtain ⟨-, rfl⟩ := pure_ok.1 h
    exact ⟨.refl, fun k slot g hk => by simp at hk⟩
  | cons e rest ih =>
    obtain ⟨slot, g⟩ := e
    have hpart := (hrest 0 slot g rfl).2
    obtain ⟨hsteps, hhead, hall⟩ : Steps moduleName aliases methods ([], s) ([], s') ∧
        ((slot.isResult && slot.type.isVoid) = false →
          ∃ f, Lowers aliases s'.Names ⟨.slot i, []⟩ slot.type f) ∧
        ∀ k slot g, rest[k]? = some (slot, g) → (slot.isResult && slot.type.isVoid) = false →
          ∃ f, Lowers aliases s'.Names ⟨.slot (i + 1 + k), []⟩ slot.type f := by
      unfold lowerSlots at h
      split at h
      · next hvoid =>
        obtain ⟨hsteps, hall⟩ := ih (i + 1) hrest.tail hi h
        exact ⟨hsteps, fun hvalue => by simp [hvalue] at hvoid, hall⟩
      · next hvoid =>
        obtain ⟨f, mid, hf, h⟩ := bind_ok.1 h
        obtain ⟨hsteps, hlow⟩ := lowerType_steps
          (lowerAlias_steps (fun _ _ => hpart.lookup_mono) (within g)) slot.type
          (hrest.met (by simpa using hvoid)) hi hf
        have hmid := Steps.invariant hsteps hi
        obtain ⟨hsteps', hall⟩ := ih (i + 1) hrest.tail hmid h
        exact ⟨hsteps.trans hsteps', fun _ => ⟨f, hlow.mono fun _ _ => Steps.names hsteps' hmid⟩,
          hall⟩
    refine ⟨hsteps, fun k slot' g' hk hvalue => ?_⟩
    cases k with
    | zero =>
      simp only [List.getElem?_cons_zero, Option.some.injEq, Prod.mk.injEq] at hk
      obtain ⟨rfl, rfl⟩ := hk
      exact hhead hvalue
    | succ k =>
      rw [Nat.add_comm k, ← Nat.add_assoc]
      exact hall k slot' g' hk hvalue

/-- Nothing is being lowered any more, and all that the methods reach has been lowered. -/
structure Complete (aliases : Aliases) (methods : List Method) (s : Collected) : Prop where
  invariant : Invariant aliases methods ([], s)
  slots : ∀ i slot, (methods.flatMap Method.slots)[i]? = some slot →
    (slot.isResult && slot.type.isVoid) = false →
      ∃ f, Lowers aliases s.Names ⟨.slot i, []⟩ slot.type f

/-- Once all types have passed the check, the answer is that of lowering them. -/
theorem collectWithin_eq {within : Aliases → Nat} {graphs : List Aliases}
    (h : (methods.flatMap Method.slots).mapM (·.type.represent aliases) = .ok graphs) :
    collectWithin within moduleName aliases methods =
      match (lowerSlots moduleName within 0 ((methods.flatMap Method.slots).zip graphs)).run {} with
      | .ok r => .ok (mergeEquivalent r.2.structs)
      | .error e => .error e.why := by
  simp only [collectWithin, h, mapError_ok, ok_bind]
  cases (lowerSlots moduleName within 0 ((methods.flatMap Method.slots).zip graphs)).run {} <;> rfl

theorem listed_zip {graphs : List Aliases}
    (h : (methods.flatMap Method.slots).mapM (·.type.represent aliases) = .ok graphs) :
    Listed aliases methods 0 ((methods.flatMap Method.slots).zip graphs) := by
  intro k slot g hk
  obtain ⟨hslot, hcheck⟩ := (zip_mapM_ok h).1 hk
  rw [Nat.zero_add]
  exact ⟨hslot, slot.type.reach_closed (reach_of_represent hcheck)⟩

theorem slots_zip {graphs : List Aliases}
    (h : (methods.flatMap Method.slots).mapM (·.type.represent aliases) = .ok graphs) :
    ((methods.flatMap Method.slots).zip graphs).map (·.1) = methods.flatMap Method.slots :=
  List.map_fst_zip (Nat.le_of_eq (length_of_mapM h).symm)

/-- A run over all types that have passed the check is a sequence of steps, and it is complete. -/
theorem complete_of_run {within : Aliases → Nat} {graphs : List Aliases} {s : Collected}
    (hgraphs : (methods.flatMap Method.slots).mapM (·.type.represent aliases) = .ok graphs)
    (hrun : (lowerSlots moduleName within 0 ((methods.flatMap Method.slots).zip graphs)).run {} =
      .ok ((), s)) :
    Steps moduleName aliases methods ([], {}) ([], s) ∧ Complete aliases methods s := by
  obtain ⟨hsteps, hall⟩ := lowerSlots_steps _ 0 (listed_zip hgraphs) .initial hrun
  refine ⟨hsteps, Steps.invariant hsteps .initial, fun i slot hslot hvalue => ?_⟩
  obtain ⟨g, hg⟩ := mapM_eq_ok_iff.1 ⟨graphs, hgraphs⟩ slot (List.mem_of_getElem? hslot)
  have hk := (zip_mapM_ok hgraphs).2 ⟨hslot, hg⟩
  simpa using hall i slot g hk hvalue

/-- Where there are structs, all types have passed the check, and the structs are the merged ones
of what a run over them has collected. -/
theorem exists_run {within : Aliases → Nat} {structs : List Struct}
    (h : collectWithin within moduleName aliases methods = .ok structs) :
    ∃ graphs s, (methods.flatMap Method.slots).mapM (·.type.represent aliases) = .ok graphs ∧
      (lowerSlots moduleName within 0 ((methods.flatMap Method.slots).zip graphs)).run {} =
        .ok ((), s) ∧ mergeEquivalent s.structs = structs := by
  obtain ⟨graphs, hgraphs, -⟩ := bind_eq_ok.1 h
  rw [mapError_eq_ok] at hgraphs
  rw [collectWithin_eq hgraphs] at h
  split at h
  · next r hrun => exact ⟨graphs, r.2, hgraphs, hrun, Except.ok.inj h⟩
  · cases h

/-- Where all types pass the check and are lowered, the structs are the merged ones of a complete
collection, to which steps have led. -/
theorem exists_steps {within : Aliases → Nat} {structs : List Struct}
    (h : collectWithin within moduleName aliases methods = .ok structs) :
    ∃ s, Steps moduleName aliases methods ([], {}) ([], s) ∧ Complete aliases methods s ∧
      mergeEquivalent s.structs = structs := by
  obtain ⟨graphs, s, hgraphs, hrun, hmerge⟩ := exists_run h
  obtain ⟨hsteps, hcomplete⟩ := complete_of_run hgraphs hrun
  exact ⟨s, hsteps, hcomplete, hmerge⟩

theorem exists_complete {within : Aliases → Nat} {structs : List Struct}
    (h : collectWithin within moduleName aliases methods = .ok structs) :
    ∃ s, Complete aliases methods s ∧ mergeEquivalent s.structs = structs := by
  obtain ⟨s, -, hcomplete, hmerge⟩ := exists_steps h
  exact ⟨s, hcomplete, hmerge⟩

end SchemaStructs
