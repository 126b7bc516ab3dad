import SchemaStructs.Proofs.Struct.Halting

set_option autoImplicit false

namespace SchemaStructs

open Lowering

/-- Where `x` does not run out of budget, `y` does what `x` does. -/
def Extends {α : Type} (x y : Lowering α) : Prop :=
  ∀ s, y.run s = x.run s ∨ ∃ s', x.run s = .error ⟨.endless, s'⟩

namespace Extends

variable {α β : Type}

theorem refl (x : Lowering α) : Extends x x := fun _ => .inl rfl

theorem bind {x y : Lowering α} {f f' : α → Lowering β} (h : Extends x y)
    (hf : ∀ a, Extends (f a) (f' a)) : Extends (x >>= f) (y >>= f') := by
  intro s
  rw [StateT.run_bind, StateT.run_bind]
  rcases h s with hsame | ⟨s', hends⟩
  · rw [hsame]
    cases x.run s with
    | error e => exact .inl rfl
    | ok r => exact hf r.1 r.2
  · exact .inr ⟨s', by simp [hends]⟩

theorem endless (y : Lowering α) : Extends (stop .endless) y := fun s => .inr ⟨s, rfl⟩

end Extends

section

variable {moduleName : String}

theorem lowerObject_extends {pending : List Pending} {site : Site} {path : List String}
    {origin : Origin} {ps : List Property} {fields fields' : List Pending → Lowering (List Field)}
    (h : ∀ base, Deeper site pending (⟨site, base⟩ :: pending) →
      Extends (fields (⟨site, base⟩ :: pending)) (fields' (⟨site, base⟩ :: pending))) :
    Extends (lowerObject moduleName pending site path origin ps fields)
      (lowerObject moduleName pending site path origin ps fields') := by
  unfold lowerObject
  split
  · exact .refl _
  · next hnone =>
    refine (Extends.refl _).bind fun s => ?_
    split
    · exact .refl _
    · split
      · exact .refl _
      · exact (h _ (.enter hnone)).bind fun fs => .refl _

variable {enter enter' : List Pending → List String → String → Lowering (FieldType String)}

mutual

theorem lowerType_extends {pending : List Pending} {site : Site} {path : List String}
    (t : SchemaType)
    (henter : ∀ r ∈ t.references, ∀ path pending', r.LeadsTo site pending pending' →
      Extends (enter pending' path r.target) (enter' pending' path r.target)) :
    Extends (lowerType moduleName enter pending site path t)
      (lowerType moduleName enter' pending site path t) := by
  match t with
  | .scalar .bool | .scalar .number | .scalar .string | .scalar .void => exact .refl _
  | .generic | .enum [] | .enum (_ :: _) => exact .refl _
  | .array element =>
    rw [lowerType, lowerType]
    exact (lowerType_extends element fun r hr path pending' h =>
      henter r.underArray (List.mem_map_of_mem hr) path pending' h).bind fun f => .refl _
  | .nullable inner =>
    rw [lowerType, lowerType]
    exact (lowerType_extends inner fun r hr path pending' h =>
      henter r.underNullable (List.mem_map_of_mem hr) path pending' h).bind fun f => .refl _
  | .object ps =>
    rw [lowerType, lowerType]
    refine (lowerObject_extends fun base hdeeper => ?_).bind fun name => .refl _
    exact lowerProperties_extends ps 0 fun r hr path pending' hkept =>
      henter r hr path pending' (.inr ⟨crossesProperty_of_mem hr, hdeeper.mono hkept⟩)
  | .named n => exact henter _ (List.mem_singleton.2 rfl) path pending (.inl ⟨rfl, rfl⟩)

theorem lowerProperties_extends {pending : List Pending} {site : Site} {path : List String}
    (ps : List Property) (k : Nat)
    (henter : ∀ r ∈ Property.references ps, ∀ path pending',
      (∀ k ∈ pending.map (·.site), k ∈ pending'.map (·.site)) →
      Extends (enter pending' path r.target) (enter' pending' path r.target)) :
    Extends (lowerProperties moduleName enter pending site path k ps)
      (lowerProperties moduleName enter' pending site path k ps) := by
  match ps with
  | [] => exact .refl _
  | ⟨name, t, optional⟩ :: ps =>
    rw [lowerProperties, lowerProperties]
    refine (lowerType_extends t fun r hr path pending' h => ?_).bind fun f =>
      (lowerProperties_extends ps (k + 1) fun r hr path pending' h => ?_).bind fun fs => .refl _
    · exact henter (r.underProperty name optional)
        (List.mem_append_left _ (List.mem_map_of_mem hr)) path pending' h.kept
    · exact henter r (List.mem_append_right _ hr) path pending' h

end

theorem lowerAlias_extends {g : Aliases} {b b' : Nat} (hb : b ≤ b') (pending : List Pending)
    (path : List String) (n : String) :
    Extends (lowerAlias moduleName g b pending path n)
      (lowerAlias moduleName g b' pending path n) := by
  induction b generalizing b' pending path n with
  | zero => exact .endless _
  | succ b ih =>
    obtain ⟨b', rfl⟩ : ∃ c, b' = c + 1 := ⟨b' - 1, by omega⟩
    have henter := fun pending path n => ih (Nat.le_of_succ_le_succ hb) pending path n
    rw [lowerAlias, lowerAlias]
    split
    · exact .refl _
    · split
      · refine (Extends.refl _).bind fun s => ?_
        split
        · exact .refl _
        · exact (lowerObject_extends fun base _ => lowerProperties_extends _ 0
            fun r _ path pending' _ => henter pending' path r.target).bind fun struct => .refl _
      · exact lowerType_extends _ fun r _ path pending' _ => henter pending' path r.target

theorem lowerSlots_extends {within within' : Aliases → Nat} (h : ∀ g, within g ≤ within' g)
    (i : Nat) (rest : List (Slot × Aliases)) :
    Extends (lowerSlots moduleName within i rest) (lowerSlots moduleName within' i rest) := by
  induction rest generalizing i with
  | nil => exact .refl _
  | cons e rest ih =>
    obtain ⟨slot, g⟩ := e
    rw [lowerSlots, lowerSlots]
    split
    · exact ih (i + 1)
    · exact (lowerType_extends slot.type fun r _ path pending' _ =>
        lowerAlias_extends (h g) pending' path r.target).bind fun f => ih (i + 1)

end

end SchemaStructs
