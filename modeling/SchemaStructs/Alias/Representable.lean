import SchemaStructs.Alias.Cycle
import SchemaStructs.Alias.Reach

/-!
Types that fit into structs held by value. A cycle of aliases is harmless if it crosses a property
and has a guard. It has no guard just when none of its references has one, and it crosses no
property just when none of its references does, so two searches for cycles decide.
-/

set_option autoImplicit false

namespace SchemaStructs

/-- A cycle without a guard if there is one, or else a cycle that crosses no property. -/
def badCycle (graph : Aliases) (roots : List String) : Option Cycle :=
  match findCycle Reference.unguarded graph roots with
  | some cycle => some cycle
  | none => findCycle Reference.outsideObjects graph roots

/-- The aliases that the type reaches, if all are defined and no cycle of them is bad. -/
def SchemaType.represent (aliases : Aliases) (t : SchemaType) : Except HeaderError Aliases := do
  let graph ← t.reach aliases
  match badCycle graph t.targets with
  | some cycle => .error (.recursiveAlias cycle.start cycle.walk)
  | none => .ok graph

end SchemaStructs
