import Mathlib.Control.Monad.Basic
import SchemaStructs.Proofs.Collect
import SchemaStructs.Proofs.Merge.Append

/-!
More methods at the end only add structs. While no object is being lowered no name is held back,
so what the first methods have given is closed, and neither lowering nor the merge touches it
again.
-/

set_option autoImplicit false

namespace SchemaStructs

open Lowering

variable {moduleName : String} {aliases : Aliases} {methods extra : List Method}

theorem Step.structs_grow {c c' : List Pending × Collected}
    (h : Step moduleName aliases methods c c') : c.2.structs <+: c'.2.structs := by
  cases h with
  | enter | record => exact List.prefix_rfl
  | reserve _ run =>
    rcases reserve_ok run with ⟨-, rfl⟩ | ⟨-, -, -, rfl⟩ <;> exact List.prefix_rfl
  | settle _ _ _ _ run =>
    rcases settle_structs run with hstructs | hstructs
    · exact hstructs ▸ List.prefix_rfl
    · exact hstructs ▸ List.prefix_append _ _

theorem Steps.structs_grow {c c' : List Pending × Collected}
    (h : Steps moduleName aliases methods c c') : c.2.structs <+: c'.2.structs := by
  induction h with
  | refl => exact List.prefix_rfl
  | tail _ hstep ih => exact ih.trans hstep.structs_grow

theorem lowerSlots_append {within : Aliases → Nat} (xs ys : List (Slot × Aliases)) (i : Nat) :
    lowerSlots moduleName within i (xs ++ ys) =
      (lowerSlots moduleName within i xs >>= fun _ =>
        lowerSlots moduleName within (i + xs.length) ys) := by
  induction xs generalizing i with
  | nil => simp [lowerSlots]
  | cons e xs ih =>
    obtain ⟨slot, g⟩ := e
    rw [List.cons_append, lowerSlots, lowerSlots, ih, List.length_cons, Nat.add_right_comm,
      ← Nat.add_assoc]
    split
    · rfl
    · simp only [bind_assoc]

theorem mapM_slots_append {graphs : List Aliases}
    (h : ((methods ++ extra).flatMap Method.slots).mapM (·.type.represent aliases) = .ok graphs) :
    ∃ graphs₁ graphs₂, graphs = graphs₁ ++ graphs₂ ∧
      (methods.flatMap Method.slots).mapM (·.type.represent aliases) = .ok graphs₁ ∧
      (extra.flatMap Method.slots).mapM (·.type.represent aliases) = .ok graphs₂ := by
  rw [List.flatMap_append, List.mapM_append] at h
  obtain ⟨graphs₁, h₁, h⟩ := bind_eq_ok.1 h
  obtain ⟨graphs₂, h₂, h⟩ := bind_eq_ok.1 h
  exact ⟨graphs₁, graphs₂, (Except.ok.inj h).symm, h₁, h₂⟩

/-- A longer list is lowered by going on where the shorter one has ended. -/
theorem exists_run_append {within : Aliases → Nat} {long : List Struct}
    (h : collectWithin within moduleName aliases (methods ++ extra) = .ok long) :
    ∃ mid s, Complete aliases methods mid ∧ Complete aliases (methods ++ extra) s ∧
      mid.structs <+: s.structs ∧
      collectWithin within moduleName aliases methods = .ok (mergeEquivalent mid.structs) ∧
      mergeEquivalent s.structs = long := by
  obtain ⟨graphs, s, hgraphs, hrun, hmerge⟩ := exists_run h
  have hcomplete := (complete_of_run hgraphs hrun).2
  obtain ⟨graphs₁, graphs₂, rfl, h₁, h₂⟩ := mapM_slots_append hgraphs
  have hlisted := listed_zip hgraphs
  have hzip : ((methods ++ extra).flatMap Method.slots).zip (graphs₁ ++ graphs₂) =
      (methods.flatMap Method.slots).zip graphs₁ ++ (extra.flatMap Method.slots).zip graphs₂ := by
    rw [List.flatMap_append, List.zip_append (length_of_mapM h₁).symm]
  rw [hzip] at hlisted hrun
  rw [lowerSlots_append] at hrun
  obtain ⟨⟨⟩, mid, hfirst, hrest⟩ := bind_ok.1 hrun
  have hmid : Invariant aliases (methods ++ extra) ([], mid) :=
    Steps.invariant (lowerSlots_steps _ 0 hlisted.left .initial hfirst).1 .initial
  have hgrown := (lowerSlots_steps _ _ hlisted.right hmid hrest).1.structs_grow
  refine ⟨mid, s, (complete_of_run h₁ hfirst).2, hcomplete, hgrown, ?_, hmerge⟩
  rw [collectWithin_eq h₁, hfirst]

/-- The structs of the first methods stand in front, with all that belongs to them. -/
theorem collect_append_prefix {long : List Struct}
    (h : collect moduleName aliases (methods ++ extra) = .ok long) :
    ∃ short, collect moduleName aliases methods = .ok short ∧ short <+: long := by
  obtain ⟨mid, s, hmid, hs, ⟨after, hafter⟩, hshort, rfl⟩ := exists_run_append h
  refine ⟨_, hshort, ?_⟩
  have hall : Linked (mid.structs ++ after) := hafter ▸ hs.linked
  rw [← hafter]
  exact mergeEquivalent_append hmid.linked hall

/-- One more object that holds itself, of the same shape as the others, and one of its own. -/
def grownAliases : Aliases := mutualAliases ++ [("C", .object [⟨"next", .named "C", true⟩])]

def laterMethods : List Method :=
  [⟨"put", [⟨"item", .named "C"⟩, ⟨"place", .object [⟨"x", .scalar .number, false⟩]⟩],
    .scalar .void⟩]

def laterStructs : List Struct :=
  [⟨"M_PutPlace", [⟨"x", .number, false⟩], .path ["put", "place"]⟩]

theorem collect_append_prefix_mutual :
    collect "M" grownAliases (mutualMethods ++ laterMethods) =
        .ok (mutualStructs ++ laterStructs) ∧
      ∃ short, collect "M" grownAliases mutualMethods = .ok short ∧
        short <+: mutualStructs ++ laterStructs := by
  have h : collect "M" grownAliases (mutualMethods ++ laterMethods) =
      .ok (mutualStructs ++ laterStructs) := by decide +kernel
  exact ⟨h, collect_append_prefix h⟩

end SchemaStructs
