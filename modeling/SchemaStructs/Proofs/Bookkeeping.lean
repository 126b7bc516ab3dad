import SchemaStructs.Proofs.Struct.Complete
import SchemaStructs.Proofs.Struct.Orderly

/-!
What a run of lowering leaves behind. Every name that it gives out ahead of time ends up on a
struct, no name is claimed in vain, and the structs refer to each other only.
-/

set_option autoImplicit false

namespace SchemaStructs

open Lowering

section

variable {moduleName : String} {aliases : Aliases} {methods : List Method}
  {pending : List Pending} {held : List String} {s : Collected}

theorem Orderly.taken_of_names (h : Orderly pending held s) {site : Site} {name : String}
    (hname : s.Names site name) : name ∈ s.taken := by
  rcases hname with hname | hname
  · exact h.taken_of_struct (h.lowered _ (mem_of_lookup hname))
  · exact h.taken_of_reserved (mem_of_lookup hname)

theorem Step.orderly {c c' : List Pending × Collected} (h : Step moduleName aliases methods c c')
    (ho : Orderly c.1 [] c.2) : Orderly c'.1 [] c'.2 ∧ c.2.taken <:+ c'.2.taken := by
  cases h with
  | enter _ _ fresh => exact ⟨ho.enter fresh, List.suffix_rfl⟩
  | reserve mem run =>
    obtain ⟨hadvances, -⟩ := ho.reserve mem run
    exact ⟨hadvances.orderly, hadvances.taken⟩
  | @settle _ s _ _ _ _ _ fields occurs _ _ lowers run =>
    have hwithin : ∀ field ∈ fields, field.type.Within s.taken := by
      intro field hfield n hn
      obtain ⟨k, hk⟩ := exists_refAt_iff.2 ⟨field, hfield, hn⟩
      obtain ⟨_, hname, -⟩ := lowers.exists_held hk (.intro fun _ _ => .property occurs)
      exact ho.taken_of_names hname
    obtain ⟨hadvances, -⟩ := ho.settle hwithin run
    exact ⟨hadvances.orderly, hadvances.taken⟩
  | @record _ _ _ names _ settled _ =>
    have hadvances := ho.recordNamed names (ho.lowered _ (mem_of_lookup settled))
    exact ⟨hadvances.orderly, hadvances.taken⟩

theorem Steps.orderly {c c' : List Pending × Collected} (h : Steps moduleName aliases methods c c')
    (ho : Orderly c.1 [] c.2) : Orderly c'.1 [] c'.2 ∧ c.2.taken <:+ c'.2.taken := by
  induction h with
  | refl => exact ⟨ho, List.suffix_rfl⟩
  | tail _ hstep ih =>
    obtain ⟨hmid, htaken⟩ := ih
    obtain ⟨hafter, htaken'⟩ := hstep.orderly hmid
    exact ⟨hafter, htaken.trans htaken'⟩

/-- A name that is reserved somewhere on the way to the end is on a struct at the end. -/
theorem Steps.reserved_pushed {mid s : Collected}
    (hsteps : Steps moduleName aliases methods (pending, mid) ([], s))
    (hmid : Orderly pending [] mid) {e : Site × String} (he : e ∈ mid.reserved) :
    e.2 ∈ s.structs.map (·.name) := by
  obtain ⟨hend, htaken⟩ := Steps.orderly hsteps hmid
  obtain ⟨-, hperm, -⟩ := hend.settled
  exact hperm.subset (htaken.subset (hmid.taken_of_reserved he))

end

/-- All that lowering does keeps what has been collected in order, from nothing on. Where no object
is being lowered any more, every name that was reserved on the way is on a struct. The objects being
lowered and the path are arguments of each call and not part of the state, so that a call leaves
them as it finds them, whether it returns or fails. -/
theorem lowering_keeps_order (moduleName : String) (aliases : Aliases) (budget : Nat) :
    Orderly [] [] {} ∧
    (∀ {pending held base s name s'}, Orderly pending held s →
      (claim base).run s = .ok (name, s') → Advances pending (name :: held) s s') ∧
    (∀ {pending held p s name s'}, Orderly pending held s → p ∈ pending →
      (reserve p).run s = .ok (name, s') →
      Advances pending held s s' ∧ s'.reserved.lookup p.site = some name) ∧
    (∀ {pending fields base reserved origin s name s'}, Orderly pending reserved.toList s →
      (∀ field ∈ fields, field.type.Within s.taken) →
      (finish fields base reserved origin).run s = .ok (name, s') →
      Advances pending [] s s' ∧ (∃ t ∈ s'.structs, t.name = name ∧ t.fields = fields) ∧
        ∀ n ∈ reserved, n = name ∧ s'.structs = s.structs ++ [⟨n, fields, origin⟩]) ∧
    (∀ {pending site path origin ps s name s'}, Orderly pending [] s →
      (lowerObject moduleName pending site path origin ps fun pending =>
        lowerProperties moduleName (lowerAlias moduleName aliases budget) pending site path 0
          ps).run s = .ok (name, s') →
      Advances pending [] s s' ∧ name ∈ s'.taken ∧
        (site ∉ pending.map (·.site) → name ∈ s'.structs.map (·.name))) ∧
    (∀ {pending site path t s f s'}, Orderly pending [] s →
      (lowerType moduleName (lowerAlias moduleName aliases budget) pending site path t).run s =
        .ok (f, s') →
      Advances pending [] s s' ∧ f.Within s'.taken) ∧
    (∀ {within slots s}, (lowerSlots moduleName within 0 slots).run {} = .ok ((), s) →
      s.reserved = [] ∧ s.taken.Perm (s.structs.map (·.name)) ∧ Linked s.structs) ∧
    ∀ {methods : List Method} {graphs within s},
      (methods.flatMap Method.slots).mapM (·.type.represent aliases) = .ok graphs →
      (lowerSlots moduleName within 0 ((methods.flatMap Method.slots).zip graphs)).run {} =
        .ok ((), s) →
      Steps moduleName aliases methods ([], {}) ([], s) ∧
        ∀ {pending mid}, Steps moduleName aliases methods ([], {}) (pending, mid) →
          Steps moduleName aliases methods (pending, mid) ([], s) →
          Orderly pending [] mid ∧ ∀ e ∈ mid.reserved, e.2 ∈ s.structs.map (·.name) := by
  refine ⟨.initial, Orderly.claim, Orderly.reserve, Orderly.finish, fun h run => ?_,
    fun h run => ?_, fun run => ?_, fun hgraphs run => ⟨(complete_of_run hgraphs run).1, ?_⟩⟩
  · exact lowerObject_advances
      (fun h run => lowerProperties_advances (lowerAlias_advances aliases budget) _ 0 h run) h run
  · exact lowerType_advances (lowerAlias_advances aliases budget) _ h run
  · exact (lowerSlots_advances 0 _ .initial run).orderly.settled
  · intro pending mid hbefore hafter
    obtain ⟨hmid, -⟩ := Steps.orderly hbefore .initial
    exact ⟨hmid, fun e he => Steps.reserved_pushed hafter hmid he⟩

section

def nodeProperties : List Property := [⟨"next", .nullable (.named "Node"), true⟩]

def nodeAliases : Aliases := [("Node", .object nodeProperties)]

def nodeMethods : List Method := [⟨"head", [], .named "Node"⟩]

def nodePending : Pending := ⟨⟨.named "Node", []⟩, "M_Node"⟩

def nodeFields : List Field := [⟨"next", .nullable (.struct "M_Node"), true⟩]

def nodeClaimed : Collected := { taken := ["M_Node"] }

def nodeReserved : Collected :=
  { nodeClaimed with reserved := [(nodePending.site, "M_Node")] }

def nodePushed : Collected := nodeClaimed.add ⟨"M_Node", nodeFields, .named "Node"⟩

def nodeLowered : Collected := { nodePushed with lowered := [(nodePending.site, "M_Node")] }

def nodeCollected : Collected := { nodeLowered with named := [("Node", "M_Node")] }

theorem node_met : Met nodeAliases nodeMethods [] nodePending.site (.object nodeProperties) := by
  have hslot : (nodeMethods.flatMap Method.slots)[0]? =
      some ⟨["head", resultSegment], .named "Node", true⟩ := rfl
  exact ⟨(Occurs.slot hslot rfl).definition rfl, by simp⟩

theorem node_reserved_steps :
    Steps "M" nodeAliases nodeMethods ([], {}) ([nodePending], nodeReserved) := by
  have hreserve : (reserve nodePending).run {} = .ok ("M_Node", nodeReserved) := rfl
  exact .tail (.single (.enter node_met (.named rfl) (by simp) rfl))
    (.reserve List.mem_cons_self hreserve)

theorem node_collected_steps :
    Steps "M" nodeAliases nodeMethods ([nodePending], nodeReserved) ([], nodeCollected) := by
  have hsettle : (settle nodePending.site (Origin.base "M" (.named "Node")) (.named "Node")
      nodeFields).run nodeReserved = .ok ("M_Node", nodeLowered) := by decide +kernel
  have hlowers : ∀ s : Collected, s.Names nodePending.site "M_Node" → ∀ place,
      Lowers nodeAliases s.Names place (.named "Node") (.struct "M_Node") :=
    fun _ hname _ => .named rfl (.object hname)
  have hfields : LowersAll nodeAliases nodeReserved.Names nodePending.site 0 nodeProperties
      nodeFields := .cons (.nullable (hlowers _ (.inr rfl) _)) .nil
  refine .tail (.single (.settle node_met.occurs (.named rfl) (by decide) hfields hsettle)) ?_
  have hnode : nodeLowered.lowered.lookup nodePending.site = some "M_Node" := rfl
  have hnames : ∀ n ∈ ["Node"], ∀ place,
      Lowers nodeAliases nodeLowered.Names place (.named n) (.struct "M_Node") :=
    List.forall_mem_singleton.2 (hlowers _ (.inl hnode))
  exact .record hnode hnames

theorem lowering_keeps_order_node :
    Advances [] ["M_Node"] {} nodeClaimed ∧
      Advances [nodePending] [] {} nodeReserved ∧
      Advances [] [] nodeClaimed nodePushed ∧
      Advances [] [] {} nodeLowered ∧
      (Advances [] [] {} nodeCollected ∧ "M_Node" ∈ nodeCollected.taken) ∧
      nodeCollected.taken.Perm (nodeCollected.structs.map (·.name)) ∧
      Linked nodeCollected.structs ∧
      Orderly [nodePending] [] nodeReserved ∧
      ∀ e ∈ nodeReserved.reserved, e.2 ∈ nodeCollected.structs.map (·.name) := by
  obtain ⟨hinitial, hclaim, hreserve, hfinish, hobject, htype, hrun, hsteps⟩ :=
    lowering_keeps_order "M" nodeAliases 4
  have hclaimed := @hclaim [] [] "M_Node" {} "M_Node" nodeClaimed hinitial rfl
  have hreserved := (@hreserve [nodePending] [] nodePending {} "M_Node" nodeReserved
    (hinitial.enter (by simp)) List.mem_cons_self rfl).1
  have hpushed := (@hfinish [] nodeFields "M_Node" (some "M_Node") (.named "Node") nodeClaimed
    "M_Node" nodePushed hclaimed.orderly (by decide) rfl).1
  have hlowered := (@hobject [] nodePending.site [] (.named "Node") nodeProperties {} "M_Node"
    nodeLowered hinitial (by decide +kernel)).1
  have hcollected := @htype [] ⟨.slot 0, []⟩ [] (.named "Node") {} (.struct "M_Node") nodeCollected
    hinitial (by decide +kernel)
  have hgraphs : (nodeMethods.flatMap Method.slots).mapM (·.type.represent nodeAliases) =
      .ok [nodeAliases] := by with_unfolding_all rfl
  have hend : (lowerSlots "M" budget 0 ((nodeMethods.flatMap Method.slots).zip [nodeAliases])).run
      {} = .ok ((), nodeCollected) := by decide +kernel
  obtain ⟨-, htaken, hlinked⟩ := hrun hend
  have hmid := (hsteps hgraphs hend).2 node_reserved_steps node_collected_steps
  exact ⟨hclaimed, hreserved, hpushed, hlowered, ⟨hcollected.1, hcollected.2 _ rfl⟩, htaken,
    hlinked, hmid⟩

end

end SchemaStructs
