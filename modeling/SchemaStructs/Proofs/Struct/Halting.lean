import SchemaStructs.Proofs.Alias.Graph
import SchemaStructs.Proofs.Struct.Operations

/-!
Why lowering stops. Whatever lowers aliases stops for the same reasons as the lowering of the
aliases that it is called with, or because the schema is invalid or names run out.
-/

set_option autoImplicit false

namespace SchemaStructs

/-- The schema is invalid, or there are too many structs of one name. -/
def HeaderError.Rejects : HeaderError → Prop
  | .invalidAt _ _ | .namesExhausted _ _ => True
  | _ => False

def Halt.Rejects : Halt HeaderError → Prop
  | .failed e => e.Rejects
  | .endless => False

@[simp] theorem Halt.rejects_failed {e : HeaderError} : (Halt.failed e).Rejects ↔ e.Rejects :=
  Iff.rfl

@[simp] theorem Halt.not_rejects_endless : ¬ Halt.endless.Rejects := fun h => h

/-- Lowering goes round without end, or names lead round to where they began. -/
def Halt.Recurs : Halt HeaderError → Prop
  | .failed (.recursiveAlias _ _) | .endless => True
  | _ => False

/-- If the computation stops without a result, it is for such a reason. -/
def Halts (P : Halt HeaderError → Prop) {α : Type} (x : Lowering α) : Prop :=
  ∀ s e, x.run s = .error e → P e.why

namespace Halts

open Lowering

variable {P : Halt HeaderError → Prop} {α β : Type}

theorem pure (a : α) : Halts P (Pure.pure a : Lowering α) := by
  intro s e h
  cases h

theorem stop {why : Halt HeaderError} (h : P why) : Halts P (stop why : Lowering α) := by
  intro s e hrun
  cases hrun
  exact h

theorem fail {e : HeaderError} (h : P (.failed e)) : Halts P (fail e : Lowering α) := stop h

theorem bind {x : Lowering α} {f : α → Lowering β} (hx : Halts P x) (hf : ∀ a, Halts P (f a)) :
    Halts P (x >>= f) := by
  intro s e h
  rw [StateT.run_bind] at h
  cases hr : x.run s with
  | error e' =>
    rw [hr] at h
    cases h
    exact hx s e hr
  | ok r =>
    rw [hr] at h
    exact hf r.1 r.2 e h

theorem get : Halts P (MonadState.get : Lowering Collected) := by
  intro s e h
  cases h

theorem set {s : Collected} : Halts P (MonadStateOf.set s : Lowering PUnit) := by
  intro s e h
  cases h

theorem modify {f : Collected → Collected} : Halts P (modify f : Lowering PUnit) := by
  intro s e h
  cases h

variable (hP : ∀ e, e.Rejects → P e)

include hP

theorem claim {base : String} : Halts P (claim base) := by
  refine get.bind fun s => ?_
  split
  · exact set.bind fun _ => pure _
  · exact fail (hP _ trivial)

theorem reserve {p : Pending} : Halts P (reserve p) := by
  refine get.bind fun s => ?_
  split
  · exact pure _
  · exact (claim hP).bind fun name => modify.bind fun _ => pure name

theorem finish {fields : List Field} {base : String} {reserved : Option String}
    {origin : Origin} : Halts P (finish fields base reserved origin) := by
  unfold Lowering.finish Lowering.push
  split
  · exact modify.bind fun _ => pure _
  · refine get.bind fun s => ?_
    split
    · exact pure _
    · exact (claim hP).bind fun name => modify.bind fun _ => pure name

theorem settle {site : Site} {base : String} {origin : Origin} {fields : List Field} :
    Halts P (settle site base origin fields) := by
  refine bind (get.bind fun s => set.bind fun _ => pure _) fun reserved => ?_
  exact (finish hP).bind fun name => modify.bind fun _ => pure name

end Halts

/-- A site that is being lowered within `pending'` and not yet within `pending`. -/
structure Deeper (site : Site) (pending pending' : List Pending) : Prop where
  fresh : site ∉ pending.map (·.site)
  entered : site ∈ pending'.map (·.site)
  kept : ∀ k ∈ pending.map (·.site), k ∈ pending'.map (·.site)

theorem Deeper.mono {site : Site} {pending pending' pending'' : List Pending}
    (h : Deeper site pending pending')
    (hkept : ∀ k ∈ pending'.map (·.site), k ∈ pending''.map (·.site)) :
    Deeper site pending pending'' :=
  ⟨h.fresh, hkept site h.entered, fun k hk => hkept k (h.kept k hk)⟩

theorem Deeper.enter {site : Site} {base : String} {pending : List Pending}
    (h : pending.find? (·.site == site) = none) : Deeper site pending (⟨site, base⟩ :: pending) :=
  ⟨by simpa [List.find?_eq_none] using h, by simp, fun _ hk => List.mem_cons_of_mem _ hk⟩

/-- The objects that are being lowered at a reference of the type at `site`: outside of objects
the same as at the type. -/
def Reference.LeadsTo (r : Reference) (site : Site) (pending pending' : List Pending) : Prop :=
  r.outsideObjects = true ∧ pending' = pending ∨
    r.crossesProperty = true ∧ Deeper site pending pending'

theorem Reference.LeadsTo.kept {r : Reference} {site : Site} {pending pending' : List Pending}
    (h : r.LeadsTo site pending pending') :
    ∀ k ∈ pending.map (·.site), k ∈ pending'.map (·.site) := by
  rcases h with ⟨-, rfl⟩ | ⟨-, hdeeper⟩
  · exact fun _ hk => hk
  · exact hdeeper.kept

section

open Lowering

variable {P : Halt HeaderError → Prop} {moduleName : String}

theorem lowerObject_halts (hP : ∀ e, e.Rejects → P e) {pending : List Pending} {site : Site}
    {path : List String} {origin : Origin} {ps : List Property}
    {fields : List Pending → Lowering (List Field)}
    (hfields : ∀ base, Deeper site pending (⟨site, base⟩ :: pending) →
      Halts P (fields (⟨site, base⟩ :: pending))) :
    Halts P (lowerObject moduleName pending site path origin ps fields) := by
  unfold lowerObject
  split
  · exact .reserve hP
  · next hnone =>
    refine Halts.get.bind fun s => ?_
    split
    · exact .pure _
    · split
      · exact .fail (hP _ trivial)
      · exact (hfields _ (.enter hnone)).bind fun fs => .settle hP

theorem crossesProperty_of_mem {r : Reference} {ps : List Property}
    (hr : r ∈ Property.references ps) : r.crossesProperty = true := by
  induction ps with
  | nil => simp [Property.references] at hr
  | cons p ps ih =>
    obtain ⟨name, t, optional⟩ := p
    rcases List.mem_append.1 hr with hr | hr
    · obtain ⟨r, -, rfl⟩ := List.mem_map.1 hr
      rfl
    · exact ih hr

variable {enter : List Pending → List String → String → Lowering (FieldType String)}

mutual

theorem lowerType_halts (hP : ∀ e, e.Rejects → P e) {pending : List Pending} {site : Site}
    {path : List String} (t : SchemaType)
    (henter : ∀ r ∈ t.references, ∀ path pending', r.LeadsTo site pending pending' →
      Halts P (enter pending' path r.target)) :
    Halts P (lowerType moduleName enter pending site path t) := by
  match t with
  | .scalar .bool | .scalar .number | .scalar .string | .generic => exact .pure _
  | .enum (_ :: _) => exact .pure _
  | .scalar .void | .enum [] => exact .fail (hP _ trivial)
  | .array element =>
    rw [lowerType]
    refine (lowerType_halts hP element fun r hr path pending' h => ?_).bind fun f => .pure _
    exact henter r.underArray (List.mem_map_of_mem hr) path pending' h
  | .nullable inner =>
    rw [lowerType]
    refine (lowerType_halts hP inner fun r hr path pending' h => ?_).bind fun f => .pure _
    exact henter r.underNullable (List.mem_map_of_mem hr) path pending' h
  | .object ps =>
    rw [lowerType]
    refine (lowerObject_halts hP fun base hdeeper => ?_).bind fun name => .pure _
    refine lowerProperties_halts hP ps 0 fun r hr path pending' hkept => ?_
    exact henter r hr path pending' (.inr ⟨crossesProperty_of_mem hr, hdeeper.mono hkept⟩)
  | .named n => exact henter _ (List.mem_singleton.2 rfl) path pending (.inl ⟨rfl, rfl⟩)

theorem lowerProperties_halts (hP : ∀ e, e.Rejects → P e) {pending : List Pending} {site : Site}
    {path : List String} (ps : List Property) (k : Nat)
    (henter : ∀ r ∈ Property.references ps, ∀ path pending',
      (∀ k ∈ pending.map (·.site), k ∈ pending'.map (·.site)) →
      Halts P (enter pending' path r.target)) :
    Halts P (lowerProperties moduleName enter pending site path k ps) := by
  match ps with
  | [] => exact .pure _
  | ⟨name, t, optional⟩ :: ps =>
    rw [lowerProperties]
    refine (lowerType_halts hP t fun r hr path pending' h => ?_).bind fun f =>
      (lowerProperties_halts hP ps (k + 1) fun r hr path pending' h => ?_).bind fun fs => .pure _
    · have hmem : r.underProperty name optional ∈ Property.references (⟨name, t, optional⟩ :: ps) :=
        List.mem_append_left _ (List.mem_map_of_mem hr)
      exact henter _ hmem path pending' h.kept
    · exact henter r (List.mem_append_right _ hr) path pending' h

end

end

end SchemaStructs
