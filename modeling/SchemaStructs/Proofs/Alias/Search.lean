import SchemaStructs.Proofs.Alias.Walk

/-!
The search for cycles in the graph of a type, for any kind of reference. The graph holds all that
the type reaches. In it the search comes to an end, misses no cycle of kept references that kept
references lead to, and leaves no alias that refers to one it has not left.
-/

set_option autoImplicit false

namespace SchemaStructs

open Relation

variable {aliases g : Aliases} {t : SchemaType} {keep : Reference → Bool}

/-- Each alias that the type reaches stands in the graph once, with its definition, and so with all
references that it makes; whatever they or the type mention stands there as well. -/
structure GraphOf (aliases : Aliases) (t : SchemaType) (g : Aliases) : Prop
    extends ClosedPart aliases g where
  once : (g.map (·.1)).Nodup
  mem_iff : ∀ n, n ∈ g.map (·.1) ↔ Reaches aliases Reference.any t n
  references : ∀ e ∈ g, ∀ r, r ∈ e.2.references ↔
    ∃ layers n, Mentions e.2 layers n ∧ r = .through layers n
  roots : ∀ n ∈ t.targets, n ∈ g.map (·.1)
  mentioned : ∀ n, n ∈ t.targets ↔ ∃ layers, Mentions t layers n

theorem mem_targets_iff {n : String} : n ∈ t.targets ↔ ∃ layers, Mentions t layers n := by
  rw [SchemaType.mem_targets]
  constructor
  · rintro ⟨r, hr, rfl⟩
    obtain ⟨layers, n, mentions, rfl⟩ := mem_references_iff.1 hr
    exact ⟨layers, mentions⟩
  · rintro ⟨layers, mentions⟩
    exact ⟨_, mem_references_iff.2 ⟨layers, n, mentions, rfl⟩, rfl⟩

theorem graphOf_reach (h : t.reach aliases = .ok g) : GraphOf aliases t g where
  toClosedPart := t.reach_closed h
  once := reachFrom_nodup h List.nodup_nil
  mem_iff _ := SchemaType.mem_reach h
  references _ _ _ := mem_references_iff
  roots _ hn := (SchemaType.mem_reach h).2 (SchemaType.reaches_target hn)
  mentioned _ := mem_targets_iff

namespace Moment

abbrev Comes (keep : Reference → Bool) (graph : Aliases) (roots : List String) (m : Moment) :
    Prop :=
  ReflTransGen (Step keep graph) (.between roots []) m

/-- The aliases that have been left refer to no others, and none of them lies on a cycle. -/
def LeavesClosed (keep : Reference → Bool) (aliases : Aliases) (m : Moment) : Prop :=
  ∀ a ∈ m.done, (∀ b, Refers aliases keep a b → b ∈ m.done) ∧ ¬ OnCycle aliases keep a

theorem Sound.leavesClosed {roots : List String} {m : Moment} (h : m.Sound keep g roots)
    (part : ClosedPart aliases g) : m.LeavesClosed keep aliases := by
  intro a ha
  have hmem := h.known a ha
  refine ⟨fun b hab => ?_, fun hcycle => ?_⟩
  · exact h.settled.mem_of_refers ha ((part.refers_iff hmem).2 hab)
  · exact h.settled.not_onCycle ha ((part.onCycle_iff hmem).2 hcycle)

end Moment

/-- In the graph of a type the search for cycles takes finitely many steps and goes on until it is
over, whichever references it keeps. It finds none just if kept references lead from the aliases
that the type mentions to no cycle of kept references. At every moment, from one root to the next,
the aliases that it has left lead to none but each other and lie on no cycle. -/
theorem findCycle_complete (h : t.reach aliases = .ok g) :
    GraphOf aliases t g ∧ ∀ keep,
      Acc (fun m' m => Moment.Step keep g m m') (.between t.targets []) ∧
      (∀ m, Moment.Comes keep g t.targets m →
        (∃ m', Moment.Step keep g m m') ∨ m.Over (findCycle keep g t.targets)) ∧
      (findCycle keep g t.targets = none ↔
        ∀ n, Reaches aliases keep t n → ¬ OnCycle aliases keep n) ∧
      ∀ m, Moment.Comes keep g t.targets m → m.LeavesClosed keep aliases := by
  have graph := graphOf_reach h
  refine ⟨graph, fun keep => ⟨Moment.acc_between _ _, fun m hm => ?_,
    findCycle_reach_eq_none_iff h keep,
    fun m hm => (Moment.sound_of_steps hm).leavesClosed graph.toClosedPart⟩⟩
  have hresult : m.result keep g = findCycle keep g t.targets := (Moment.result_eq_of_steps hm).symm
  rw [← hresult]
  exact (Moment.sound_of_steps hm).progress graph.closed graph.roots

def twoRoots : Aliases :=
  [("A", .object [⟨"self", .named "A", true⟩, ⟨"c", .named "C", false⟩, ⟨"d", .named "C", false⟩]),
    ("B", .object [⟨"a", .named "A", false⟩, ⟨"all", .array (.named "B"), false⟩]),
    ("C", .object [])]

def bothRoots : SchemaType := .object [⟨"a", .named "A", false⟩, ⟨"b", .named "B", false⟩]

theorem findCycle_complete_roots :
    bothRoots.reach twoRoots = .ok twoRoots ∧ GraphOf twoRoots bothRoots twoRoots ∧
    (findCycle Reference.unguarded twoRoots ["A", "B"] = none ∧
      ∀ n, Reaches twoRoots Reference.unguarded bothRoots n →
        ¬ OnCycle twoRoots Reference.unguarded n) ∧
    (findCycle Reference.any twoRoots ["A", "B"] = some ⟨"A", ["A", "self", "A"]⟩ ∧
      ∃ n, Reaches twoRoots Reference.any bothRoots n ∧ OnCycle twoRoots Reference.any n) ∧
    Moment.Comes Reference.unguarded twoRoots ["A", "B"] (.between ["B"] ["A", "C"]) ∧
    Moment.LeavesClosed Reference.unguarded twoRoots (.between ["B"] ["A", "C"]) := by
  have hreach : bothRoots.reach twoRoots = .ok twoRoots := by with_unfolding_all rfl
  obtain ⟨graph, hsearch⟩ := findCycle_complete hreach
  obtain ⟨-, -, hunguarded, hleft⟩ := hsearch Reference.unguarded
  obtain ⟨-, -, hany, -⟩ := hsearch Reference.any
  have hnone : findCycle Reference.unguarded twoRoots ["A", "B"] = none := by decide +kernel
  have hfound : findCycle Reference.any twoRoots ["A", "B"] = some ⟨"A", ["A", "self", "A"]⟩ := by
    decide +kernel
  have hrun : Moment.Comes Reference.unguarded twoRoots ["A", "B"] (.between ["B"] ["A", "C"]) :=
    .head (.enter (by simp) rfl) <| .head (.skip nofun) <|
      .head (.descend rfl (by simp) (by decide) rfl) <| .head .leave <|
      .head (.skip fun _ => List.mem_cons_self) <| .single .finish
  refine ⟨hreach, graph, ⟨hnone, hunguarded.1 hnone⟩, ⟨hfound, ?_⟩, hrun, hleft _ hrun⟩
  by_contra hfree
  have hclear := hany.2 fun n hn hcycle => hfree ⟨n, hn, hcycle⟩
  cases hfound.symm.trans hclear

end SchemaStructs
