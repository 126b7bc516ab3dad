import SchemaStructs.Proofs.Struct.Complete
import SchemaStructs.Proofs.Struct.Halting

set_option autoImplicit false

namespace SchemaStructs

open Relation

variable {aliases : Aliases} {methods : List Method}

/-- From a type of the methods references lead to an alias, and from there, outside of objects,
back to it. -/
def LoopReached (aliases : Aliases) (methods : List Method) : Prop :=
  ∃ slot ∈ methods.flatMap Method.slots, ∃ n,
    Reaches aliases Reference.any slot.type n ∧ OnCycle aliases Reference.outsideObjects n

mutual

theorem Occurs.reference {site : Site} {r : Reference} (t : SchemaType)
    (h : Occurs aliases methods site t) (hr : r ∈ t.references) :
    ∃ place, Occurs aliases methods place (.named r.target) := by
  match t with
  | .scalar _ | .generic | .enum _ => simp [SchemaType.references] at hr
  | .array t =>
    obtain ⟨q, hq, rfl⟩ := List.mem_map.1 hr
    exact Occurs.reference (r := q) t h.element hq
  | .nullable t =>
    obtain ⟨q, hq, rfl⟩ := List.mem_map.1 hr
    exact Occurs.reference (r := q) t h.inner hq
  | .object ps => exact Occurs.propertyReference ps 0 h.properties hr
  | .named n =>
    rw [List.mem_singleton.1 hr]
    exact ⟨site, h⟩

theorem Occurs.propertyReference {site : Site} {r : Reference} (ps : List Property) (k : Nat)
    (h : EachProperty (Occurs aliases methods) site k ps) (hr : r ∈ Property.references ps) :
    ∃ place, Occurs aliases methods place (.named r.target) := by
  match ps with
  | [] => simp [Property.references] at hr
  | ⟨name, t, optional⟩ :: ps =>
    rcases List.mem_append.1 hr with hr | hr
    · obtain ⟨q, hq, rfl⟩ := List.mem_map.1 hr
      exact Occurs.reference (r := q) t h.head hq
    · exact Occurs.propertyReference ps (k + 1) h.tail hr

end

theorem Occurs.of_reaches {site : Site} {t : SchemaType} {n : String}
    (h : Occurs aliases methods site t) (hn : Reaches aliases Reference.any t n) :
    ∃ place, Occurs aliases methods place (.named n) := by
  obtain ⟨root, hroot, path⟩ := hn
  induction path with
  | refl =>
    obtain ⟨r, hr, rfl⟩ := SchemaType.mem_targets.1 hroot
    exact Occurs.reference t h hr
  | tail _ hstep ih =>
    obtain ⟨place, hocc⟩ := ih
    obtain ⟨body, hbody, r, hr, -, rfl⟩ := hstep
    exact Occurs.reference body (hocc.definition hbody) hr

/-- What has been lowered leads outside of objects only to what had been lowered before. -/
theorem Lowers.acc {names : Site → String → Prop} {site : Site} {t : SchemaType}
    {f : FieldType String} (h : Lowers aliases names site t f) : ∀ r ∈ t.references,
      r.outsideObjects = true →
        Acc (fun b a => Refers aliases Reference.outsideObjects a b) r.target := by
  induction h with
  | bool | number | string | generic | enum =>
    intro r hr
    simp [SchemaType.references] at hr
  | array _ ih | nullable _ ih =>
    intro r hr hout
    obtain ⟨q, hq, rfl⟩ := List.mem_map.1 hr
    exact ih q hq hout
  | object =>
    intro r hr hout
    have hcross := crossesProperty_of_mem hr
    simp [Reference.outsideObjects, hcross] at hout
  | @named site n body f hbody _ ih =>
    intro r hr _
    rw [List.mem_singleton.1 hr]
    refine .intro n fun m hm => ?_
    obtain ⟨body', hbody', r, hr, hout, rfl⟩ := hm
    rw [hbody, Option.some.injEq] at hbody'
    exact ih r (hbody' ▸ hr) hout

theorem references_of_isVoid {t : SchemaType} (h : t.isVoid = true) : t.references = [] := by
  unfold SchemaType.isVoid at h
  split at h
  · simp [SchemaType.references]
  · cases h

theorem Complete.not_loopReached {s : Collected} (h : Complete aliases methods s) :
    ¬ LoopReached aliases methods := by
  rintro ⟨slot, hslot, n, hn, hcycle⟩
  obtain ⟨i, hi⟩ := List.mem_iff_getElem?.1 hslot
  have hvalue : (slot.isResult && slot.type.isVoid) = false := by
    refine Bool.eq_false_iff.2 fun hvoid => ?_
    obtain ⟨root, hroot, -⟩ := hn
    rw [Bool.and_eq_true] at hvoid
    simp [SchemaType.targets, references_of_isVoid hvoid.2] at hroot
  obtain ⟨place, hocc⟩ := Occurs.of_reaches (.slot hi hvalue) hn
  obtain ⟨f, hf⟩ := h.exists_lowers hocc
  exact not_onCycle_of_acc (hf.acc _ (List.mem_singleton.2 rfl) rfl) hcycle

end SchemaStructs
