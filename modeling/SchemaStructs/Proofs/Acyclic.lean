import SchemaStructs.Proofs.Rejection
import SchemaStructs.Proofs.Struct.Mirror

/-!
Modules without recursion. What collecting remembers only saves it work, and nothing is left to
merge: the structs are those of lowering every object each time it is met, and where there are none
the reason is the same.
-/

set_option autoImplicit false

namespace SchemaStructs

open Relation

variable {moduleName : String} {aliases : Aliases} {methods : List Method}

theorem not_onBadCycle_of_acyclic (hacyclic : ¬ Recursive aliases methods) :
    ∀ slot ∈ methods.flatMap Method.slots, ∀ n,
      Reaches aliases Reference.any slot.type n → ¬ OnBadCycle aliases n :=
  fun slot hslot n hn hcycle =>
    hacyclic ⟨slot, hslot, n, hn, hcycle.elim OnCycle.any OnCycle.any⟩

/-- Structs refer to those before them, and no two have equal fields, so no two are alike. -/
theorem Underway.mergeEquivalent_eq_self {pending : List Pending} {s : Collected}
    (hs : Underway moduleName aliases methods pending s) (ht : s.Tidy)
    (hacyclic : ¬ Recursive aliases methods) : mergeEquivalent s.structs = s.structs :=
  SchemaStructs.mergeEquivalent_eq_self (hs.backward hacyclic) hs.names_nodup ht.distinct

section

variable (hdefined : ∀ slot ∈ methods.flatMap Method.slots, Defined aliases slot.type)
  (hacyclic : ¬ Recursive aliases methods)

include hdefined hacyclic

/-- Both ways of lowering lead to the same structs, or both reject the schema for the same
reason. -/
theorem collectWithin_plain (moduleName : String) :
    (∃ structs, collectWithin budget moduleName aliases methods = .ok structs ∧
      collectPlain moduleName aliases methods = .ok structs) ∨
    ∃ e : HeaderError, e.Rejects ∧
      collectWithin budget moduleName aliases methods = .error (.failed e) ∧
      collectPlain moduleName aliases methods = .error e := by
  have hcycles := not_onBadCycle_of_acyclic hacyclic
  obtain ⟨graphs, hgraphs⟩ := mapM_eq_ok_iff.2 (checked_of_cycles hdefined hcycles)
  have hlisted := listed_zip hgraphs
  have hinitial : Underway moduleName aliases methods [] {} := .initial
  have hmirrors : Mirrors (lowerSlots moduleName budget 0 _) _ {} :=
    lowerSlots_mirrors hacyclic hlisted hinitial ⟨rfl, .nil⟩
  rw [slots_zip hgraphs] at hmirrors
  have hrun : collectWithin budget moduleName aliases methods = _ := collectWithin_eq hgraphs
  split at hrun
  · next r hok =>
    obtain ⟨htidy, hplain⟩ := hmirrors.ok () r.2 hok
    have hpopulated := (lowerSlots_populates 0 _ {} r.2 () hinitial.populated hok).1
    have hs := hinitial.steps (complete_of_run hgraphs hok).1 hpopulated
    rw [hs.mergeEquivalent_eq_self htidy hacyclic] at hrun
    refine .inl ⟨r.2.structs, hrun, ?_⟩
    rw [collectPlain, hplain]
    rfl
  · next e herror =>
    have hrejects := rejects_of_cycles hdefined hcycles hrun
    obtain ⟨e', hwhy, hplain⟩ := hmirrors.error e herror hrejects
    rw [hwhy] at hrun hrejects
    refine .inr ⟨e', hrejects, hrun, ?_⟩
    rw [collectPlain, hplain]
    rfl

/-- Where aliases are defined and none leads back to itself, collecting gives what plain lowering
gives. -/
theorem collect_eq_plain (moduleName : String) :
    collect moduleName aliases methods =
      (collectPlain moduleName aliases methods).mapError Halt.failed := by
  rcases collectWithin_plain hdefined hacyclic moduleName with
    ⟨structs, hwithin, hplain⟩ | ⟨e, -, hwithin, hplain⟩
  · simp [collect, hwithin, hplain]
  · simp [collect, hwithin, hplain]

end

/-- Where the aliases can be ranked above all that they mention, none leads back to itself. -/
theorem not_recursive_of_rank (rank : String → Nat)
    (h : ∀ e ∈ aliases, ∀ n ∈ e.2.targets, rank n < rank e.1) : ¬ Recursive aliases methods := by
  have hdescends : ∀ m n, TransGen (Refers aliases Reference.any) m n → rank n < rank m := by
    have hstep : ∀ m n, Refers aliases Reference.any m n → rank n < rank m := by
      rintro m n ⟨body, hbody, r, hr, -, rfl⟩
      exact h _ (mem_of_lookup hbody) _ (SchemaType.mem_targets.2 ⟨r, hr, rfl⟩)
    intro m n path
    induction path with
    | single hmn => exact hstep _ _ hmn
    | tail _ hmn ih => exact Nat.lt_trans (hstep _ _ hmn) ih
  rintro ⟨_, -, n, -, hcycle⟩
  exact Nat.lt_irrefl _ (hdescends n n hcycle)

/-- Two ways lead from the top to the base, one of them through another name for the middle. -/
def diamondAliases : Aliases :=
  [("Top", .object [⟨"left", .named "Middle", false⟩, ⟨"right", .named "Side", true⟩]),
    ("Side", .named "Middle"),
    ("Middle", .object [⟨"base", .named "Base", false⟩]),
    ("Base", .object [⟨"x", .scalar .number, false⟩])]

def diamondMethods : List Method :=
  [⟨"find", [⟨"query", .object [⟨"base", .named "Base", false⟩]⟩], .named "Top"⟩]

def diamondStructs : List Struct :=
  [⟨"M_Base", [⟨"x", .number, false⟩], .named "Base"⟩,
    ⟨"M_FindQuery", [⟨"base", .struct "M_Base", false⟩], .path ["find", "query"]⟩,
    ⟨"M_Top", [⟨"left", .struct "M_FindQuery", false⟩, ⟨"right", .struct "M_FindQuery", true⟩],
      .named "Top"⟩]

theorem collect_eq_plain_diamond :
    collect "M" diamondAliases diamondMethods = .ok diamondStructs ∧
      collectPlain "M" diamondAliases diamondMethods = .ok diamondStructs := by
  have hcollect : collect "M" diamondAliases diamondMethods = .ok diamondStructs := by
    decide +kernel
  have hdefined : ∀ slot ∈ diamondMethods.flatMap Method.slots,
      Defined diamondAliases slot.type := defined_of_isOk (by decide +kernel)
  have hacyclic : ¬ Recursive diamondAliases diamondMethods :=
    not_recursive_of_rank (["Base", "Middle", "Side", "Top"].idxOf ·) (by decide +kernel)
  have hplain := collect_eq_plain hdefined hacyclic "M"
  rw [hcollect] at hplain
  exact ⟨hcollect, mapError_eq_ok.1 hplain.symm⟩

end SchemaStructs
