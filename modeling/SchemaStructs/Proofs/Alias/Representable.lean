import SchemaStructs.Proofs.Alias.Cycle
import SchemaStructs.Proofs.Alias.Reach
import SchemaStructs.Proofs.Outcome

/-!
What the check of a type accepts. Each of its two searches drops references, and with them all
that lies behind: a bad cycle that is met only behind a dropped reference is not seen.
-/

set_option autoImplicit false

namespace SchemaStructs

open Relation

variable {aliases : Aliases} {t : SchemaType}

theorem badCycle_eq_none_iff {graph : Aliases} {roots : List String} :
    badCycle graph roots = none ↔ findCycle Reference.unguarded graph roots = none ∧
      findCycle Reference.outsideObjects graph roots = none := by
  unfold badCycle
  cases findCycle Reference.unguarded graph roots <;> simp

/-- The search in the part of the aliases that a type reaches sees what kept references reach. -/
theorem findCycle_reach_eq_none_iff {g : Aliases} (h : t.reach aliases = .ok g)
    (keep : Reference → Bool) : findCycle keep g t.targets = none ↔
      ∀ n, Reaches aliases keep t n → ¬ OnCycle aliases keep n := by
  have part := t.reach_closed h
  have hroots : ∀ n ∈ t.targets, n ∈ g.map (·.1) :=
    fun n hn => (SchemaType.mem_reach h).2 (SchemaType.reaches_target hn)
  rw [findCycle_eq_none_iff part.closed hroots]
  constructor
  · rintro hfree n ⟨root, hroot, path⟩
    have path' := (part.path_iff (hroots root hroot)).2 path
    have hn := part.mem_of_path (hroots root hroot) path'
    exact fun hcycle => hfree root hroot n path' ((part.onCycle_iff hn).2 hcycle)
  · intro hfree root hroot n path hcycle
    have hn := part.mem_of_path (hroots root hroot) path
    exact hfree n ⟨root, hroot, (part.path_iff (hroots root hroot)).1 path⟩
      ((part.onCycle_iff hn).1 hcycle)

theorem reach_of_represent {g : Aliases} (h : t.represent aliases = .ok g) :
    t.reach aliases = .ok g := by
  unfold SchemaType.represent at h
  cases hreach : t.reach aliases with
  | error e => simp [hreach, bind, Except.bind] at h
  | ok g' =>
    simp only [hreach, bind, Except.bind] at h
    split at h
    · simp at h
    · exact h

def Defined (aliases : Aliases) (t : SchemaType) : Prop :=
  ∀ n, Reaches aliases Reference.any t n → ∃ body, aliases.lookup n = some body

/-- All references of some cycle through `n` are unguarded, or none of them crosses a property. -/
def OnBadCycle (aliases : Aliases) (n : String) : Prop :=
  OnCycle aliases Reference.unguarded n ∨ OnCycle aliases Reference.outsideObjects n

/-- A bad cycle is reached by references of the kind that it is made of. -/
def MeetsBadCycle (aliases : Aliases) (t : SchemaType) : Prop :=
  ∃ keep ∈ [Reference.unguarded, Reference.outsideObjects], ∃ n,
    Reaches aliases keep t n ∧ OnCycle aliases keep n

theorem badCycle_reach_eq_none_iff {g : Aliases} (h : t.reach aliases = .ok g) :
    badCycle g t.targets = none ↔ ¬ MeetsBadCycle aliases t := by
  rw [badCycle_eq_none_iff, findCycle_reach_eq_none_iff h, findCycle_reach_eq_none_iff h]
  simp [MeetsBadCycle, not_or]

theorem represent_eq_ok_iff :
    (∃ g, t.represent aliases = .ok g) ↔ Defined aliases t ∧ ¬ MeetsBadCycle aliases t := by
  rw [Defined, ← SchemaType.reach_eq_ok_iff]
  constructor
  · rintro ⟨g, h⟩
    have hreach := reach_of_represent h
    refine ⟨⟨g, hreach⟩, (badCycle_reach_eq_none_iff hreach).1 ?_⟩
    simp only [SchemaType.represent, hreach, bind, Except.bind] at h
    split at h
    · simp at h
    · assumption
  · rintro ⟨⟨g, hreach⟩, hfree⟩
    have hnone := (badCycle_reach_eq_none_iff hreach).2 hfree
    exact ⟨g, by simp only [SchemaType.represent, hreach, bind, Except.bind, hnone]⟩

/-- The check accepts a type if it reaches defined aliases only and meets no bad cycle. So it keeps
all bad cycles out just of those types that meet one, or miss a definition, whenever they reach
one at all. -/
theorem represent_keeps_bad_cycles_out_iff (aliases : Aliases) (t : SchemaType) :
    ((∃ g, t.represent aliases = .ok g) ↔ Defined aliases t ∧ ¬ MeetsBadCycle aliases t) ∧
    (((∃ g, t.represent aliases = .ok g) →
        ∀ n, Reaches aliases Reference.any t n → ¬ OnBadCycle aliases n) ↔
      ((∃ n, Reaches aliases Reference.any t n ∧ OnBadCycle aliases n) →
        ¬ Defined aliases t ∨ MeetsBadCycle aliases t)) := by
  refine ⟨represent_eq_ok_iff, ?_⟩
  rw [represent_eq_ok_iff]
  constructor
  · rintro hsound ⟨n, hn, hbad⟩
    by_cases hmeets : MeetsBadCycle aliases t
    · exact .inr hmeets
    · exact .inl fun hdefined => hsound ⟨hdefined, hmeets⟩ n hn hbad
  · rintro hseen ⟨hdefined, hfree⟩ n hn hbad
    rcases hseen ⟨n, hn, hbad⟩ with hundefined | hmeets
    · exact hundefined hdefined
    · exact hfree hmeets

def arrayBehindProperty : Aliases :=
  [("A", .object [⟨"p", .named "B", true⟩]), ("B", .array (.named "B"))]

theorem represent_overlooks_bad_cycle :
    ¬ ∀ (aliases : Aliases) (t : SchemaType), (∃ g, t.represent aliases = .ok g) →
      ∀ n, Reaches aliases Reference.any t n → ¬ OnBadCycle aliases n := by
  intro hsound
  have haccepted : ∃ g, (SchemaType.named "A").represent arrayBehindProperty = .ok g :=
    exists_of_isOk (by decide +kernel)
  have hAB : Refers arrayBehindProperty Reference.any "A" "B" :=
    ⟨_, rfl, _, List.mem_singleton.2 rfl, rfl, rfl⟩
  have hBB : Refers arrayBehindProperty Reference.outsideObjects "B" "B" :=
    ⟨_, rfl, _, List.mem_singleton.2 rfl, rfl, rfl⟩
  exact hsound _ _ haccepted "B" ⟨"A", List.mem_singleton.2 rfl, .single hAB⟩
    (.inr (.single hBB))

end SchemaStructs
