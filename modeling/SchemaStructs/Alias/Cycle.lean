import SchemaStructs.Alias.Reference
import SchemaStructs.Alias.Unseen

/-!
Cycles of references among aliases. The search goes depth first from one alias at a time and
never enters an alias again that it has left, so it looks at every reference once.
-/

set_option autoImplicit false

namespace SchemaStructs

/-- A cycle, spelled as the names of its aliases with the labels of each reference in between. -/
structure Cycle where
  start : String
  walk : List String
  deriving DecidableEq, Repr

/-- An alias on the way, left by the reference `via` with those in `todo` still to look at. -/
structure Stop where
  name : String
  via : Reference
  todo : List Reference

def Stop.spell (s : Stop) : List String := s.name :: s.via.steps

def spellFrom (target : String) : List Stop → List String
  | [] => []
  | s :: trail => if s.name = target then s.spell else spellFrom target trail ++ s.spell

def trailWork : List Stop → Nat
  | [] => 0
  | s :: trail => s.todo.length + 1 + trailWork trail

def trailNames (trail : List Stop) : List String := trail.map (·.name)

/-- Searches from the alias `name` with the references `todo` still to look at; the aliases in
`done` lie on no cycle. Gives the aliases that are known to lie on none, or a cycle. -/
def searchFrom (keep : Reference → Bool) (graph : Aliases) (name : String)
    (todo : List Reference) (trail : List Stop) (done : List String) :
    Except Cycle (List String) :=
  match todo, trail with
  | [], [] => .ok (name :: done)
  | [], s :: trail => searchFrom keep graph s.name s.todo trail (name :: done)
  | r :: todo, trail =>
    if _hkeep : !keep r || done.contains r.target then searchFrom keep graph name todo trail done
    else if _h : r.target ∈ name :: trailNames trail then
      .error ⟨r.target, spellFrom r.target (⟨name, r, todo⟩ :: trail) ++ [r.target]⟩
    else
      match _hget : graph.lookup r.target with
      | some body =>
        searchFrom keep graph r.target body.references (⟨name, r, todo⟩ :: trail) done
      | none => searchFrom keep graph name todo trail done
termination_by todo.length + trailWork trail +
  unseen (fun t => t.references.length + 1) (name :: trailNames trail ++ done) graph
decreasing_by
  · have := unseen_le (fun t => t.references.length + 1)
      (name :: trailNames (s :: trail) ++ done) (s.name :: trailNames trail ++ name :: done)
      (by simp [trailNames]; grind) graph
    simp only [trailWork, List.length_nil]; omega
  · simp only [List.length_cons]; omega
  · simp only [Bool.or_eq_true, Bool.not_eq_true', List.contains_eq_mem, decide_eq_true_eq,
      not_or] at _hkeep
    have := unseen_add_le (fun t => t.references.length + 1)
      (name :: trailNames trail ++ done)
      (r.target :: trailNames (⟨name, r, todo⟩ :: trail) ++ done)
      (by simp only [List.cons_append, List.mem_cons, List.mem_append] at *; grind) (by simp)
      (fun n hn => by simp [trailNames] at *; grind) _hget
    simp only [trailWork, List.length_cons]; omega
  · simp only [List.length_cons]; omega

def findCycleFrom (keep : Reference → Bool) (graph : Aliases) (done : List String) :
    List String → Option Cycle
  | [] => none
  | name :: names =>
    if done.contains name then findCycleFrom keep graph done names
    else
      match graph.lookup name with
      | none => findCycleFrom keep graph done names
      | some body =>
        match searchFrom keep graph name body.references [] done with
        | .error cycle => some cycle
        | .ok done => findCycleFrom keep graph done names

def findCycle (keep : Reference → Bool) (graph : Aliases) (roots : List String) : Option Cycle :=
  findCycleFrom keep graph [] roots

end SchemaStructs
