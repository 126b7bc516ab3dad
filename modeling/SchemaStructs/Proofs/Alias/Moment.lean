import SchemaStructs.Proofs.Alias.Graph

/-!
The search for cycles from moment to moment. The aliases that it has left carry over from one root
to the next. Its result can be told at every moment, no step changes it, and there are only
finitely many steps.
-/

set_option autoImplicit false

namespace SchemaStructs

open Relation

inductive Moment where
  /-- Before the next of the roots. -/
  | between (roots done : List String)
  /-- At the alias `name`, with the references `todo` still to look at, before the roots. -/
  | inside (name : String) (todo : List Reference) (trail : List Stop) (done roots : List String)
  | found (cycle : Cycle) (done : List String)

namespace Moment

def done : Moment → List String
  | .between _ done | .inside _ _ _ done _ | .found _ done => done

/-- One step of the search. There is none to an alias that the graph does not hold. -/
inductive Step (keep : Reference → Bool) (graph : Aliases) : Moment → Moment → Prop
  | pass {name : String} {roots done : List String} (settled : name ∈ done) :
      Step keep graph (.between (name :: roots) done) (.between roots done)
  | enter {name : String} {roots done : List String} {body : SchemaType} (new : name ∉ done)
      (hbody : graph.lookup name = some body) :
      Step keep graph (.between (name :: roots) done)
        (.inside name body.references [] done roots)
  | skip {name : String} {r : Reference} {todo : List Reference} {trail : List Stop}
      {done roots : List String} (skipped : keep r = true → r.target ∈ done) :
      Step keep graph (.inside name (r :: todo) trail done roots)
        (.inside name todo trail done roots)
  | close {name : String} {r : Reference} {todo : List Reference} {trail : List Stop}
      {done roots : List String} (kept : keep r = true) (new : r.target ∉ done)
      (seen : r.target ∈ name :: trailNames trail) :
      Step keep graph (.inside name (r :: todo) trail done roots)
        (.found ⟨r.target, spellFrom r.target (⟨name, r, todo⟩ :: trail) ++ [r.target]⟩ done)
  | descend {name : String} {r : Reference} {todo : List Reference} {trail : List Stop}
      {done roots : List String} {body : SchemaType} (kept : keep r = true)
      (new : r.target ∉ done) (unseen : r.target ∉ name :: trailNames trail)
      (hbody : graph.lookup r.target = some body) :
      Step keep graph (.inside name (r :: todo) trail done roots)
        (.inside r.target body.references (⟨name, r, todo⟩ :: trail) done roots)
  | leave {name : String} {s : Stop} {trail : List Stop} {done roots : List String} :
      Step keep graph (.inside name [] (s :: trail) done roots)
        (.inside s.name s.todo trail (name :: done) roots)
  | finish {name : String} {done roots : List String} :
      Step keep graph (.inside name [] [] done roots) (.between roots (name :: done))

inductive Over : Moment → Option Cycle → Prop
  | clear {done : List String} : Over (.between [] done) none
  | found {cycle : Cycle} {done : List String} : Over (.found cycle done) (some cycle)

def result (keep : Reference → Bool) (graph : Aliases) : Moment → Option Cycle
  | .between roots done => findCycleFrom keep graph done roots
  | .inside name todo trail done roots =>
    match searchFrom keep graph name todo trail done with
    | .error cycle => some cycle
    | .ok done => findCycleFrom keep graph done roots
  | .found cycle _ => some cycle

end Moment

section

variable {keep : Reference → Bool} {graph : Aliases} {name : String} {r : Reference}
  {todo : List Reference} {trail : List Stop} {done : List String}

theorem skipped_iff :
    (!keep r || done.contains r.target) = true ↔ (keep r = true → r.target ∈ done) := by
  cases keep r <;> simp

theorem not_skipped_iff :
    ¬ (!keep r || done.contains r.target) = true ↔ keep r = true ∧ r.target ∉ done := by
  rw [skipped_iff, Classical.not_imp]

theorem searchFrom_skip (h : keep r = true → r.target ∈ done) :
    searchFrom keep graph name (r :: todo) trail done =
      searchFrom keep graph name todo trail done := by
  rw [searchFrom, dif_pos (skipped_iff.2 h)]

theorem searchFrom_close (hkeep : keep r = true) (hnew : r.target ∉ done)
    (hseen : r.target ∈ name :: trailNames trail) :
    searchFrom keep graph name (r :: todo) trail done =
      .error ⟨r.target, spellFrom r.target (⟨name, r, todo⟩ :: trail) ++ [r.target]⟩ := by
  rw [searchFrom, dif_neg (not_skipped_iff.2 ⟨hkeep, hnew⟩), dif_pos hseen]

theorem searchFrom_descend (hkeep : keep r = true) (hnew : r.target ∉ done)
    (hunseen : r.target ∉ name :: trailNames trail) {body : SchemaType}
    (hbody : graph.lookup r.target = some body) :
    searchFrom keep graph name (r :: todo) trail done =
      searchFrom keep graph r.target body.references (⟨name, r, todo⟩ :: trail) done := by
  rw [searchFrom, dif_neg (not_skipped_iff.2 ⟨hkeep, hnew⟩), dif_neg hunseen]
  split
  · next body' hbody' => rw [Option.some.inj (hbody.symm.trans hbody')]
  · next hnone => rw [hbody] at hnone; cases hnone

end

namespace Moment

variable {keep : Reference → Bool} {graph : Aliases} {m m' : Moment}

theorem Step.result_eq (h : Step keep graph m m') :
    m.result keep graph = m'.result keep graph := by
  cases h with
  | pass settled => simp [result, findCycleFrom, settled]
  | @enter name _ done body new hbody =>
    cases hsearch : searchFrom keep graph name body.references [] done <;>
      simp [result, findCycleFrom, new, hbody, hsearch]
  | skip skipped => simp only [result, searchFrom_skip skipped]
  | close kept new seen => simp only [result, searchFrom_close kept new seen]
  | descend kept new unseen hbody => simp only [result, searchFrom_descend kept new unseen hbody]
  | leave => simp only [result, searchFrom]
  | finish => simp only [result, searchFrom]

theorem result_eq_of_steps (h : ReflTransGen (Step keep graph) m m') :
    m.result keep graph = m'.result keep graph := by
  induction h with
  | refl => rfl
  | tail _ step ih => rw [ih, step.result_eq]

theorem Step.rightUnique : Relator.RightUnique (Step keep graph) := by
  intro m a b ha hb
  cases ha <;> cases hb <;> simp_all

/-- As there is one step at most, the steps end if they do so after it. -/
theorem Step.acc (h : Step keep graph m m') (hacc : Acc (fun m' m => Step keep graph m m') m') :
    Acc (fun m' m => Step keep graph m m') m := by
  refine .intro _ fun a ha => ?_
  rwa [Step.rightUnique ha h]

/-- From an alias on the steps end if they do so from the root that comes next. -/
theorem acc_inside {name : String} {todo : List Reference} {trail : List Stop}
    {done roots : List String}
    (hnext : ∀ done, Acc (fun m' m => Step keep graph m m') (.between roots done)) :
    Acc (fun m' m => Step keep graph m m') (.inside name todo trail done roots) := by
  fun_induction searchFrom keep graph name todo trail done with
  | case1 name done => exact Step.finish.acc (hnext _)
  | case2 name done s trail ih => exact Step.leave.acc ih
  | case3 name done r todo trail hskip ih => exact (Step.skip (skipped_iff.1 hskip)).acc ih
  | case4 name done r todo trail hskip hseen =>
    obtain ⟨hkeep, hnew⟩ := not_skipped_iff.1 hskip
    exact (Step.close hkeep hnew hseen).acc (.intro _ nofun)
  | case5 name done r todo trail hskip hunseen body hbody ih =>
    obtain ⟨hkeep, hnew⟩ := not_skipped_iff.1 hskip
    exact (Step.descend hkeep hnew hunseen hbody).acc ih
  | case6 name done r todo trail hskip hunseen hnone =>
    refine .intro _ fun m hm => ?_
    cases hm with
    | skip skipped => exact absurd (skipped_iff.2 skipped) hskip
    | close _ _ seen => exact absurd seen hunseen
    | descend _ _ _ hbody =>
      rw [hnone] at hbody
      cases hbody

theorem acc_between (roots done : List String) :
    Acc (fun m' m => Step keep graph m m') (.between roots done) := by
  induction roots generalizing done with
  | nil => exact .intro _ nofun
  | cons name roots ih =>
    refine .intro _ fun m hm => ?_
    cases hm with
    | pass => exact ih _
    | enter => exact acc_inside ih

end Moment

end SchemaStructs
