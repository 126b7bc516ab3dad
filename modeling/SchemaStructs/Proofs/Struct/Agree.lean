import SchemaStructs.Proofs.Alias.Agree
import SchemaStructs.Proofs.Collect

/-!
Only the aliases that the methods reach matter. Under two maps that agree on them the check, the
lowering of every type, with all that it keeps for later, and the merge take the same steps and
fail at the same places.
-/

set_option autoImplicit false

namespace SchemaStructs

section

variable {moduleName : String}
  {enter enter' : List Pending → List String → String → Lowering (FieldType String)}

mutual

theorem lowerType_congr (t : SchemaType)
    (h : ∀ n ∈ t.targets, ∀ pending path, enter pending path n = enter' pending path n)
    (pending : List Pending) (site : Site) (path : List String) :
    lowerType moduleName enter pending site path t =
      lowerType moduleName enter' pending site path t := by
  match t with
  | .scalar .bool | .scalar .number | .scalar .string | .scalar .void => rfl
  | .generic | .enum [] | .enum (_ :: _) => rfl
  | .array element =>
    rw [targets_array] at h
    simp only [lowerType, lowerType_congr element h]
  | .nullable inner =>
    rw [targets_nullable] at h
    simp only [lowerType, lowerType_congr inner h]
  | .object ps =>
    rw [targets_object] at h
    simp only [lowerType, lowerProperties_congr ps h]
  | .named n => exact h n (List.mem_singleton.2 rfl) pending path

theorem lowerProperties_congr (ps : List Property)
    (h : ∀ n ∈ ps.flatMap (·.type.targets), ∀ pending path,
      enter pending path n = enter' pending path n)
    (pending : List Pending) (site : Site) (path : List String) (index : Nat) :
    lowerProperties moduleName enter pending site path index ps =
      lowerProperties moduleName enter' pending site path index ps := by
  match ps with
  | [] => rfl
  | ⟨name, type, optional⟩ :: ps =>
    simp only [List.flatMap_cons, List.mem_append, or_imp, forall_and] at h
    simp only [lowerProperties, lowerType_congr type h.1, lowerProperties_congr ps h.2]

end

end

section

variable {aliases aliases' : Aliases}

theorem lowerAlias_congr (moduleName : String) (b : Nat) (pending : List Pending)
    (path : List String) {n : String} (h : Agree aliases aliases' (.named n)) :
    lowerAlias moduleName aliases b pending path n =
      lowerAlias moduleName aliases' b pending path n := by
  induction b generalizing pending path n with
  | zero => rfl
  | succ b ih =>
    rw [lowerAlias, lowerAlias, ← follow_congr h]
    cases hfollow : follow aliases (.named n) with
    | error e => rfl
    | ok chain =>
      obtain ⟨names, body⟩ := chain
      obtain ⟨owner, -, hops⟩ := follow_ok hfollow
      have henter : ∀ m ∈ body.targets, ∀ pending path,
          lowerAlias moduleName aliases b pending path m =
            lowerAlias moduleName aliases' b pending path m :=
        fun m hm pending path => ih pending path ((h.hops hops).target hm)
      cases body with
      | object ps =>
        rw [targets_object] at henter
        simp only [lowerProperties_congr ps henter]
      | _ => exact lowerType_congr _ henter _ _ _

/-- All types are lowered with one map as if each had the aliases that agree with it only. -/
theorem lowerSlots_agree (moduleName : String) (b i : Nat) {rest : List (Slot × Aliases)}
    (h : ∀ e ∈ rest, Agree e.2 aliases e.1.type) :
    lowerSlots moduleName (fun _ => b) i rest =
      lowerSlots moduleName (fun _ => b) i (rest.map fun e => (e.1, aliases)) := by
  induction rest generalizing i with
  | nil => rfl
  | cons e rest ih =>
    obtain ⟨slot, g⟩ := e
    rw [List.forall_mem_cons] at h
    have htype : lowerType moduleName (lowerAlias moduleName g b) [] ⟨.slot i, []⟩ slot.path
          slot.type =
        lowerType moduleName (lowerAlias moduleName aliases b) [] ⟨.slot i, []⟩ slot.path
          slot.type :=
      lowerType_congr slot.type (fun n hn pending path =>
        lowerAlias_congr moduleName b pending path (h.1.target hn)) _ _ _
    rw [List.map_cons, lowerSlots, lowerSlots]
    simp only [htype, ih (i + 1) h.2]

end

section

variable {aliases aliases' : Aliases} {methods : List Method}

/-- As `collectWithin`, but all aliases are at hand for every type, and not only those that it
reaches. -/
def collectAmong (b : Nat) (moduleName : String) (aliases : Aliases) (methods : List Method) :
    Except (Halt HeaderError) (List Struct) := do
  let slots := methods.flatMap Method.slots
  let _ ← Except.mapError Halt.failed (slots.mapM (·.type.represent aliases))
  let lowered := lowerSlots moduleName (fun _ => b) 0 (slots.map fun slot => (slot, aliases))
  let ((), collected) ← (lowered.run {}).mapError Halted.why
  return mergeEquivalent collected.structs

/-- The aliases that a type does not reach play no part in lowering it. -/
theorem collectAmong_eq (b : Nat) (moduleName : String) (aliases : Aliases)
    (methods : List Method) : collectAmong b moduleName aliases methods =
      collectWithin (fun _ => b) moduleName aliases methods := by
  cases hgraphs : (methods.flatMap Method.slots).mapM (·.type.represent aliases) with
  | error e => simp only [collectAmong, collectWithin, hgraphs]; rfl
  | ok graphs =>
    have hagree : ∀ e ∈ (methods.flatMap Method.slots).zip graphs, Agree e.2 aliases e.1.type := by
      intro e he
      obtain ⟨k, hk⟩ := List.mem_iff_getElem?.1 he
      obtain ⟨-, hcheck⟩ := (zip_mapM_ok hgraphs).1 hk
      exact Agree.of_reach (fun _ _ => rfl) (reach_of_represent hcheck)
    have hzip : ((methods.flatMap Method.slots).zip graphs).map (fun e => (e.1, aliases)) =
        (methods.flatMap Method.slots).map fun slot => (slot, aliases) := by
      conv_rhs => rw [← List.map_fst_zip (Nat.le_of_eq (length_of_mapM hgraphs).symm), List.map_map]
      rfl
    have hslots := lowerSlots_agree moduleName b 0 hagree
    rw [hzip] at hslots
    simp only [collectAmong, collectWithin, hgraphs, ← hslots]
    rfl

theorem collectWithin_congr
    (h : ∀ slot ∈ methods.flatMap Method.slots, Agree aliases aliases' slot.type)
    (within : Aliases → Nat) (moduleName : String) :
    collectWithin within moduleName aliases methods =
      collectWithin within moduleName aliases' methods := by
  rw [collectWithin, collectWithin, mapM_congr fun slot hslot => represent_congr (h slot hslot)]

/-- Two maps that agree on all aliases that the methods reach give the same structs or the same
error, whatever else they hold; so they do when every name is looked up among all aliases, within
any budget. -/
theorem collect_eq_of_agree
    (h : ∀ slot ∈ methods.flatMap Method.slots, Agree aliases aliases' slot.type)
    (moduleName : String) :
    collect moduleName aliases methods = collect moduleName aliases' methods ∧
      ∀ b, collectAmong b moduleName aliases methods =
        collectAmong b moduleName aliases' methods := by
  refine ⟨by rw [collect, collect, collectWithin_congr h], fun b => ?_⟩
  rw [collectAmong_eq, collectAmong_eq, collectWithin_congr h]

/-- A loop without an end, a name without a definition and an object that breaks every rule. -/
def strayAliases : Aliases :=
  [("Z", .array (.named "Z")), ("Y", .nullable (.named "Missing")),
    ("X", .object [⟨"a", .scalar .void, false⟩, ⟨"a", .enum [], false⟩])]

theorem agree_strayAliases : ∀ slot ∈ mutualMethods.flatMap Method.slots,
    Agree mutualAliases (strayAliases ++ mutualAliases) slot.type := by
  have hreach : ∀ slot ∈ mutualMethods.flatMap Method.slots,
      (slot.type.reach mutualAliases).map (fun g => g.all (["A", "B"].contains ·.1)) =
        .ok true := by decide +kernel
  intro slot hslot n hn
  have h := hreach slot hslot
  cases hg : slot.type.reach mutualAliases with
  | error e => simp [hg, Except.map] at h
  | ok g =>
    rw [hg] at h
    obtain ⟨e, he, rfl⟩ := List.mem_map.1 ((SchemaType.mem_reach hg).2 hn)
    have hname := List.all_eq_true.1 (Except.ok.inj h) e he
    simp only [List.contains_eq_mem, decide_eq_true_eq, List.mem_cons, List.not_mem_nil,
      or_false] at hname
    rcases hname with hA | hB
    · rw [hA]; rfl
    · rw [hB]; rfl

theorem collect_eq_of_agree_stray :
    (∀ slot ∈ mutualMethods.flatMap Method.slots,
      Agree mutualAliases (strayAliases ++ mutualAliases) slot.type) ∧
    collect "M" mutualAliases mutualMethods =
        collect "M" (strayAliases ++ mutualAliases) mutualMethods ∧
      ∀ b, collectAmong b "M" mutualAliases mutualMethods =
        collectAmong b "M" (strayAliases ++ mutualAliases) mutualMethods :=
  ⟨agree_strayAliases, collect_eq_of_agree agree_strayAliases "M"⟩

end

end SchemaStructs
