import Mathlib.Data.List.Nodup
import SchemaStructs.Proofs.Alias.Moment

/-!
The search for cycles is complete for the references that it keeps: it ends without a cycle just
when kept references lead from the roots to none. At every moment the aliases that it has left
refer to no others, and the trail is a way from one of the roots.
-/

set_option autoImplicit false

namespace SchemaStructs

open Relation

variable {graph : Aliases} {keep : Reference → Bool}

/-- Aliases in the order in which the search left them, the last first. -/
inductive Settled (graph : Aliases) (keep : Reference → Bool) : List String → Prop
  | nil : Settled graph keep []
  | cons {name : String} {done : List String} (after : ∀ b, Refers graph keep name b → b ∈ done)
      (rest : Settled graph keep done) : Settled graph keep (name :: done)

namespace Settled

variable {done : List String}

theorem mem_of_refers (h : Settled graph keep done) {a b : String} (ha : a ∈ done)
    (hab : Refers graph keep a b) : b ∈ done := by
  induction h with
  | nil => simp at ha
  | cons after _ ih =>
    rcases List.mem_cons.1 ha with rfl | ha
    · exact List.mem_cons_of_mem _ (after b hab)
    · exact List.mem_cons_of_mem _ (ih ha)

theorem mem_of_path (h : Settled graph keep done) {a b : String} (ha : a ∈ done)
    (path : ReflTransGen (Refers graph keep) a b) : b ∈ done := by
  induction path with
  | refl => exact ha
  | tail _ hbc ih => exact h.mem_of_refers ih hbc

theorem acc (h : Settled graph keep done) {a : String} (ha : a ∈ done) :
    Acc (fun b a => Refers graph keep a b) a := by
  induction h generalizing a with
  | nil => simp at ha
  | cons after _ ih =>
    rcases List.mem_cons.1 ha with rfl | ha
    · exact .intro _ fun b hab => ih (after b hab)
    · exact ih ha

theorem not_onCycle (h : Settled graph keep done) {a : String} (ha : a ∈ done) :
    ¬ OnCycle graph keep a := not_onCycle_of_acc (h.acc ha)

end Settled

/-- The alias `name` has been entered, and of its references only `todo` may still lead to an
alias that is not settled. -/
def Entered (graph : Aliases) (keep : Reference → Bool) (done : List String) (name : String)
    (todo : List Reference) : Prop :=
  ∃ body, graph.lookup name = some body ∧ (∀ r ∈ todo, r ∈ body.references) ∧
    ∀ r ∈ body.references, keep r = true → r.target ∈ done ∨ r ∈ todo

namespace Entered

variable {done done' : List String} {name : String} {todo : List Reference} {r : Reference}

theorem start {body : SchemaType} (h : graph.lookup name = some body) :
    Entered graph keep done name body.references :=
  ⟨body, h, fun _ hr => hr, fun _ hr _ => .inr hr⟩

theorem mono (h : Entered graph keep done name todo) (hdone : ∀ n ∈ done, n ∈ done') :
    Entered graph keep done' name todo := by
  obtain ⟨body, hbody, htodo, href⟩ := h
  exact ⟨body, hbody, htodo, fun r hr hk => (href r hr hk).imp_left (hdone _)⟩

theorem next (h : Entered graph keep done name (r :: todo))
    (hr : keep r = true → r.target ∈ done) : Entered graph keep done name todo := by
  obtain ⟨body, hbody, htodo, href⟩ := h
  refine ⟨body, hbody, fun q hq => htodo q (List.mem_cons_of_mem _ hq), fun q hq hk => ?_⟩
  rcases href q hq hk with hdone | hq
  · exact .inl hdone
  · rcases List.mem_cons.1 hq with rfl | hq
    · exact .inl (hr hk)
    · exact .inr hq

theorem mem_of_refers (h : Entered graph keep done name []) {b : String}
    (hab : Refers graph keep name b) : b ∈ done := by
  obtain ⟨body, hbody, -, href⟩ := h
  obtain ⟨body', hbody', r, hr, hk, rfl⟩ := hab
  rw [hbody, Option.some.injEq] at hbody'
  simpa using href r (hbody' ▸ hr) hk

theorem target_mem (h : Entered graph keep done name (r :: todo))
    (hclosed : Closed graph) :
    r.target ∈ graph.map (·.1) := by
  obtain ⟨body, hbody, htodo, -⟩ := h
  exact hclosed _ (mem_of_lookup hbody) _
    (SchemaType.mem_targets.2 ⟨r, htodo r List.mem_cons_self, rfl⟩)

theorem mem_keys (h : Entered graph keep done name todo) : name ∈ graph.map (·.1) := by
  obtain ⟨body, hbody, -⟩ := h
  exact mem_keys_of_lookup hbody

theorem refers (h : Entered graph keep done name (r :: todo)) (hk : keep r = true) :
    Refers graph keep name r.target := by
  obtain ⟨body, hbody, htodo, -⟩ := h
  exact ⟨body, hbody, r, htodo r List.mem_cons_self, hk, rfl⟩

end Entered

/-- The stops on the way to `name`, each of which was left by a kept reference to the next. -/
inductive Trail (graph : Aliases) (keep : Reference → Bool) (done : List String) :
    String → List Stop → Prop
  | root {name : String} : Trail graph keep done name []
  | stop {name : String} {via : Reference} {todo : List Reference} {trail : List Stop}
      (kept : keep via = true) (entered : Entered graph keep done name (via :: todo))
      (rest : Trail graph keep done name trail) :
      Trail graph keep done via.target (⟨name, via, todo⟩ :: trail)

namespace Trail

variable {done done' : List String} {name : String} {trail : List Stop}

theorem mono (h : Trail graph keep done name trail) (hdone : ∀ n ∈ done, n ∈ done') :
    Trail graph keep done' name trail := by
  induction h with
  | root => exact .root
  | stop kept entered _ ih => exact .stop kept (entered.mono hdone) ih

theorem path (h : Trail graph keep done name trail) {n : String} (hn : n ∈ trailNames trail) :
    TransGen (Refers graph keep) n name := by
  induction h with
  | root => simp [trailNames] at hn
  | stop kept entered _ ih =>
    have step := entered.refers kept
    rcases List.mem_cons.1 hn with rfl | hn
    · exact .single step
    · exact (ih hn).tail step

end Trail

/-- Where the search is at an alias: the trail leads there from one of the roots in `start`. -/
structure OnWay (graph : Aliases) (keep : Reference → Bool) (start done : List String)
    (name : String) (todo : List Reference) (trail : List Stop) : Prop where
  entered : Entered graph keep done name todo
  behind : Trail graph keep done name trail
  once : (name :: trailNames trail).Nodup
  reached : ∀ n ∈ name :: trailNames trail,
    ∃ root ∈ start, ReflTransGen (Refers graph keep) root n

namespace OnWay

variable {start done : List String} {name : String} {r : Reference} {todo : List Reference}
  {trail : List Stop}

theorem enter (hname : name ∈ start) {body : SchemaType} (hbody : graph.lookup name = some body) :
    OnWay graph keep start done name body.references [] := by
  refine ⟨.start hbody, .root, List.nodup_singleton name, fun n hn => ?_⟩
  rw [List.mem_singleton.1 hn]
  exact ⟨name, hname, .refl⟩

theorem skip (h : OnWay graph keep start done name (r :: todo) trail)
    (hskip : keep r = true → r.target ∈ done) : OnWay graph keep start done name todo trail :=
  ⟨h.entered.next hskip, h.behind, h.once, h.reached⟩

theorem descend (h : OnWay graph keep start done name (r :: todo) trail) (hkeep : keep r = true)
    (hunseen : r.target ∉ name :: trailNames trail) {body : SchemaType}
    (hbody : graph.lookup r.target = some body) :
    OnWay graph keep start done r.target body.references (⟨name, r, todo⟩ :: trail) := by
  refine ⟨.start hbody, .stop hkeep h.entered h.behind, List.nodup_cons.2 ⟨hunseen, h.once⟩,
    List.forall_mem_cons.2 ⟨?_, h.reached⟩⟩
  obtain ⟨root, hroot, path⟩ := h.reached name List.mem_cons_self
  exact ⟨root, hroot, path.tail (h.entered.refers hkeep)⟩

theorem leave {s : Stop} (h : OnWay graph keep start done name [] (s :: trail)) :
    OnWay graph keep start (name :: done) s.name s.todo trail := by
  obtain ⟨-, htrail, honce, hreached⟩ := h
  cases htrail with
  | @stop _ via _ _ kept entered rest =>
    have hgrow : ∀ n ∈ done, n ∈ via.target :: done := fun _ => List.mem_cons_of_mem _
    exact ⟨(entered.mono hgrow).next fun _ => List.mem_cons_self, rest.mono hgrow,
      (List.nodup_cons.1 honce).2, fun n hn => hreached n (List.mem_cons_of_mem _ hn)⟩

theorem settle (h : OnWay graph keep start done name [] trail) (hsettled : Settled graph keep done)
    (hknown : ∀ n ∈ done, n ∈ graph.map (·.1)) :
    Settled graph keep (name :: done) ∧ ∀ n ∈ name :: done, n ∈ graph.map (·.1) :=
  ⟨.cons (fun _ => h.entered.mem_of_refers) hsettled,
    List.forall_mem_cons.2 ⟨h.entered.mem_keys, hknown⟩⟩

theorem onCycle (h : OnWay graph keep start done name (r :: todo) trail) (hkeep : keep r = true)
    (hseen : r.target ∈ name :: trailNames trail) : OnCycle graph keep r.target := by
  have step := h.entered.refers hkeep
  rcases List.mem_cons.1 hseen with heq | hmem
  · rw [← heq] at step
    exact .single step
  · exact (h.behind.path hmem).tail step

end OnWay

namespace Moment

/-- Every root in `start` is left, on the way or still to come, and a cycle that is found has been
closed on the way. -/
inductive Placed (keep : Reference → Bool) (graph : Aliases) (start : List String) :
    Moment → Prop
  | between {roots done : List String} (ahead : ∀ n ∈ roots, n ∈ start)
      (covered : ∀ n ∈ start, n ∈ done ∨ n ∈ roots) :
      Placed keep graph start (.between roots done)
  | inside {name : String} {todo : List Reference} {trail : List Stop} {done roots : List String}
      (way : OnWay graph keep start done name todo trail) (ahead : ∀ n ∈ roots, n ∈ start)
      (covered : ∀ n ∈ start, n ∈ done ∨ n ∈ name :: trailNames trail ∨ n ∈ roots) :
      Placed keep graph start (.inside name todo trail done roots)
  | found {name : String} {r : Reference} {todo : List Reference} {trail : List Stop}
      {done : List String} (way : OnWay graph keep start done name (r :: todo) trail)
      (kept : keep r = true) (seen : r.target ∈ name :: trailNames trail) :
      Placed keep graph start
        (.found ⟨r.target, spellFrom r.target (⟨name, r, todo⟩ :: trail) ++ [r.target]⟩ done)

structure Sound (keep : Reference → Bool) (graph : Aliases) (start : List String) (m : Moment) :
    Prop where
  settled : Settled graph keep m.done
  known : ∀ n ∈ m.done, n ∈ graph.map (·.1)
  placed : m.Placed keep graph start

variable {start : List String} {m m' : Moment}

theorem Step.sound (h : Step keep graph m m') (hm : m.Sound keep graph start) :
    m'.Sound keep graph start := by
  obtain ⟨settled, known, placed⟩ := hm
  cases h with
  | pass hdone =>
    obtain ⟨ahead, covered⟩ := placed
    refine ⟨settled, known, .between (List.forall_mem_cons.1 ahead).2 fun n hn => ?_⟩
    rcases covered n hn with hn | hn
    · exact .inl hn
    · rcases List.mem_cons.1 hn with rfl | hn
      · exact .inl hdone
      · exact .inr hn
  | enter new hbody =>
    obtain ⟨ahead, covered⟩ := placed
    obtain ⟨hname, hroots⟩ := List.forall_mem_cons.1 ahead
    exact ⟨settled, known, .inside (.enter hname hbody) hroots
      (by simpa [trailNames] using covered)⟩
  | skip skipped =>
    cases placed with
    | inside way ahead covered => exact ⟨settled, known, .inside (way.skip skipped) ahead covered⟩
  | close kept new seen =>
    cases placed with
    | inside way => exact ⟨settled, known, .found way kept seen⟩
  | descend kept new unseen hbody =>
    cases placed with
    | inside way ahead covered =>
      exact ⟨settled, known, .inside (way.descend kept unseen hbody) ahead fun n hn =>
        (covered n hn).imp_right (.imp_left (List.mem_cons_of_mem _))⟩
  | leave =>
    -- All that the alias refers to has been seen, so it is settled before it is left.
    cases placed with
    | inside way ahead covered =>
      obtain ⟨settled, known⟩ := way.settle settled known
      refine ⟨settled, known, .inside way.leave ahead fun n hn => ?_⟩
      simpa [trailNames, or_assoc, or_left_comm] using covered n hn
  | finish =>
    cases placed with
    | inside way ahead covered =>
      obtain ⟨settled, known⟩ := way.settle settled known
      refine ⟨settled, known, .between ahead fun n hn => ?_⟩
      simpa [trailNames, or_assoc, or_left_comm] using covered n hn

theorem sound_of_steps (h : ReflTransGen (Step keep graph) (.between start []) m) :
    m.Sound keep graph start := by
  induction h with
  | refl => exact ⟨.nil, nofun, .between (fun _ hn => hn) fun _ hn => .inr hn⟩
  | tail _ step ih => exact step.sound ih

/-- Where all that is mentioned is defined, the search goes on until it is over. -/
theorem Sound.progress (h : m.Sound keep graph start) (hclosed : Closed graph)
    (hstart : ∀ n ∈ start, n ∈ graph.map (·.1)) :
    (∃ m', Step keep graph m m') ∨ m.Over (m.result keep graph) := by
  obtain ⟨-, -, placed⟩ := h
  cases placed with
  | @between roots done ahead =>
    cases roots with
    | nil => exact .inr .clear
    | cons name roots =>
      by_cases hdone : name ∈ done
      · exact .inl ⟨_, .pass hdone⟩
      · obtain ⟨body, hbody⟩ := exists_lookup_of_mem (hstart name (ahead name List.mem_cons_self))
        exact .inl ⟨_, .enter hdone hbody⟩
  | @inside name todo trail done roots way =>
    match todo, trail with
    | [], [] => exact .inl ⟨_, .finish⟩
    | [], s :: trail => exact .inl ⟨_, .leave⟩
    | r :: todo, trail =>
      by_cases hskip : keep r = true → r.target ∈ done
      · exact .inl ⟨_, .skip hskip⟩
      · obtain ⟨hkeep, hnew⟩ := Classical.not_imp.1 hskip
        by_cases hseen : r.target ∈ name :: trailNames trail
        · exact .inl ⟨_, .close hkeep hnew hseen⟩
        · obtain ⟨body, hbody⟩ := exists_lookup_of_mem (way.entered.target_mem hclosed)
          exact .inl ⟨_, .descend hkeep hnew hseen hbody⟩
  | found => exact .inr .found

theorem Sound.exists_over (h : m.Sound keep graph start)
    (hacc : Acc (fun m' m => Step keep graph m m') m) (hclosed : Closed graph)
    (hstart : ∀ n ∈ start, n ∈ graph.map (·.1)) :
    ∃ m' : Moment, m'.Sound keep graph start ∧ m'.Over (m.result keep graph) := by
  induction hacc with
  | intro m _ ih =>
    rcases h.progress hclosed hstart with ⟨m', step⟩ | hover
    · rw [step.result_eq]
      exact ih m' step (step.sound h)
    · exact ⟨m, h, hover⟩

theorem Placed.onCycle {cycle : Cycle} {done : List String}
    (h : Placed keep graph start (.found cycle done)) : ∃ root ∈ start,
      ReflTransGen (Refers graph keep) root cycle.start ∧ OnCycle graph keep cycle.start := by
  cases h with
  | found way kept seen =>
    obtain ⟨root, hroot, path⟩ := way.reached _ seen
    exact ⟨root, hroot, path, way.onCycle kept seen⟩

end Moment

section

variable {roots : List String} (hclosed : Closed graph) (hroots : ∀ n ∈ roots, n ∈ graph.map (·.1))

include hclosed hroots

theorem findCycle_over :
    ∃ m : Moment, m.Sound keep graph roots ∧ m.Over (findCycle keep graph roots) :=
  (Moment.sound_of_steps .refl).exists_over (Moment.acc_between roots []) hclosed hroots

theorem placed_of_findCycle {cycle : Cycle} (h : findCycle keep graph roots = some cycle) :
    ∃ done, Moment.Placed keep graph roots (.found cycle done) := by
  obtain ⟨m, sound, hover⟩ := @findCycle_over graph keep _ hclosed hroots
  rw [h] at hover
  cases hover with
  | found => exact ⟨_, sound.placed⟩

/-- No cycle is found just when kept references lead from no root to a cycle of kept references. -/
theorem findCycle_eq_none_iff :
    findCycle keep graph roots = none ↔ ∀ root ∈ roots, ∀ n,
      ReflTransGen (Refers graph keep) root n → ¬ OnCycle graph keep n := by
  constructor
  · intro h root hroot n path
    obtain ⟨m, ⟨settled, -, placed⟩, hover⟩ := @findCycle_over graph keep _ hclosed hroots
    rw [h] at hover
    cases hover with
    | clear =>
      cases placed with
      | between _ covered =>
        have hdone := (covered root hroot).resolve_right List.not_mem_nil
        exact settled.not_onCycle (settled.mem_of_path hdone path)
  · intro h
    cases hfind : findCycle keep graph roots with
    | none => rfl
    | some cycle =>
      obtain ⟨done, placed⟩ := placed_of_findCycle hclosed hroots hfind
      obtain ⟨root, hroot, path, hcycle⟩ := placed.onCycle
      exact absurd hcycle (h root hroot _ path)

end

end SchemaStructs
