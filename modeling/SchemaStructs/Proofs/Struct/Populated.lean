import SchemaStructs.Proofs.Struct.Slots

set_option autoImplicit false

namespace SchemaStructs

def FieldType.Populated {ρ : Type} : FieldType ρ → Prop
  | .enum members => members ≠ []
  | .array element => element.Populated
  | .nullable inner => inner.Populated
  | _ => True

def Collected.Populated (s : Collected) : Prop :=
  ∀ t ∈ s.structs, ∀ field ∈ t.fields, field.type.Populated

def Populates {α : Type} (P : α → Prop) (x : Lowering α) : Prop :=
  ∀ s s' a, s.Populated → x.run s = .ok (a, s') → s'.Populated ∧ P a

namespace Populates

open Lowering

variable {α β : Type} {P : α → Prop} {Q : β → Prop}

theorem pure {a : α} (h : P a) : Populates P (Pure.pure a : Lowering α) := by
  intro s s' b hs hrun
  obtain ⟨rfl, rfl⟩ := pure_ok.1 hrun
  exact ⟨hs, h⟩

theorem stop {why : Halt HeaderError} : Populates P (stop why : Lowering α) := by
  intro s s' a hs hrun
  simp at hrun

theorem bind {x : Lowering α} {f : α → Lowering β} (hx : Populates P x)
    (hf : ∀ a, P a → Populates Q (f a)) : Populates Q (x >>= f) := by
  intro s s' b hs hrun
  obtain ⟨a, mid, hfirst, hrest⟩ := bind_ok.1 hrun
  obtain ⟨hmid, ha⟩ := hx s mid a hs hfirst
  exact hf a ha mid s' b hmid hrest

theorem get : Populates (fun _ => True) (MonadState.get : Lowering Collected) := by
  intro s s' a hs hrun
  cases hrun
  exact ⟨hs, trivial⟩

theorem recordNamed {names : List String} {name : String} :
    Populates (fun _ => True) (recordNamed names name) := by
  intro s s' a hs hrun
  cases hrun
  exact ⟨hs, trivial⟩

theorem reserve {p : Pending} : Populates (fun _ => True) (reserve p) := by
  intro s s' name hs hrun
  rcases reserve_ok hrun with ⟨-, rfl⟩ | ⟨-, -, -, rfl⟩ <;> exact ⟨hs, trivial⟩

theorem settle {site : Site} {base : String} {origin : Origin} {fields : List Field}
    (h : ∀ field ∈ fields, field.type.Populated) :
    Populates (fun _ => True) (settle site base origin fields) := by
  intro s s' name hs hrun
  refine ⟨fun t ht => ?_, trivial⟩
  rcases settle_structs hrun with hstructs | hstructs <;> rw [hstructs] at ht
  · exact hs t ht
  · rcases List.mem_append.1 ht with ht | ht
    · exact hs t ht
    · rw [List.mem_singleton.1 ht]
      exact h

end Populates

section

variable {moduleName : String}

theorem lowerObject_populates {pending : List Pending} {site : Site} {path : List String}
    {origin : Origin} {ps : List Property} {fields : List Pending → Lowering (List Field)}
    (hfields : ∀ pending, Populates (fun fs => ∀ f ∈ fs, f.type.Populated) (fields pending)) :
    Populates (fun _ => True) (lowerObject moduleName pending site path origin ps fields) := by
  unfold lowerObject
  split
  · exact .reserve
  · refine Populates.get.bind fun s _ => ?_
    split
    · exact .pure trivial
    · split
      · exact .stop
      · exact (hfields _).bind fun fs hfs => .settle hfs

variable {enter : List Pending → List String → String → Lowering (FieldType String)}

mutual

theorem lowerType_populates
    (henter : ∀ pending path n, Populates FieldType.Populated (enter pending path n))
    {pending : List Pending} {site : Site} {path : List String} (t : SchemaType) :
    Populates FieldType.Populated (lowerType moduleName enter pending site path t) := by
  match t with
  | .scalar .bool | .scalar .number | .scalar .string | .generic => exact .pure trivial
  | .scalar .void | .enum [] => exact .stop
  | .enum (m :: ms) => exact .pure (List.cons_ne_nil m ms)
  | .array element | .nullable element =>
    simp only [lowerType]
    exact (lowerType_populates henter element).bind fun f hf => .pure hf
  | .object ps =>
    simp only [lowerType]
    exact (lowerObject_populates fun pending => lowerProperties_populates henter ps 0).bind
      fun name _ => .pure trivial
  | .named n => exact henter pending path n

theorem lowerProperties_populates
    (henter : ∀ pending path n, Populates FieldType.Populated (enter pending path n))
    {pending : List Pending} {site : Site} {path : List String} (ps : List Property) (k : Nat) :
    Populates (fun fs => ∀ f ∈ fs, f.type.Populated)
      (lowerProperties moduleName enter pending site path k ps) := by
  match ps with
  | [] => exact .pure (by simp)
  | ⟨name, t, optional⟩ :: ps =>
    simp only [lowerProperties]
    exact (lowerType_populates henter t).bind fun f hf =>
      (lowerProperties_populates henter ps (k + 1)).bind fun fs hfs =>
        .pure (List.forall_mem_cons.2 ⟨hf, hfs⟩)

end

theorem lowerAlias_populates {g : Aliases} (budget : Nat) (pending : List Pending)
    (path : List String) (n : String) :
    Populates FieldType.Populated (lowerAlias moduleName g budget pending path n) := by
  induction budget generalizing pending path n with
  | zero => exact .stop
  | succ budget ih =>
    rw [lowerAlias]
    split
    · exact .stop
    · split
      · refine Populates.get.bind fun s _ => ?_
        split
        · exact Populates.recordNamed.bind fun _ _ => .pure trivial
        · refine (lowerObject_populates fun pending => lowerProperties_populates ih _ 0).bind
            fun struct _ => ?_
          split
          · exact .pure trivial
          · exact Populates.recordNamed.bind fun _ _ => .pure trivial
      · exact lowerType_populates ih _

theorem lowerSlots_populates {within : Aliases → Nat} (i : Nat) (rest : List (Slot × Aliases)) :
    Populates (fun _ => True) (lowerSlots moduleName within i rest) := by
  induction rest generalizing i with
  | nil => exact .pure trivial
  | cons e rest ih =>
    obtain ⟨slot, g⟩ := e
    rw [lowerSlots]
    split
    · exact ih (i + 1)
    · exact (lowerType_populates (lowerAlias_populates _) slot.type).bind fun f _ => ih (i + 1)

end

end SchemaStructs
