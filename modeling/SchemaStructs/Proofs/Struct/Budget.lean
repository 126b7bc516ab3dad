import SchemaStructs.Proofs.Alias.Chain
import SchemaStructs.Proofs.Struct.Extends

/-!
The budget of aliases suffices where any budget does. Where an alias comes twice on the way from
one object to the next, it comes again and again, as nothing but the alias decides how it goes on;
and with every object of an alias there is one alias less whose object can still be entered.
-/

set_option autoImplicit false

namespace SchemaStructs

open Relation

def openAliases (pending : List Pending) : List String :=
  pending.filterMap fun p =>
    match p.site with
    | ⟨.named n, []⟩ => some n
    | _ => none

theorem mem_openAliases {pending : List Pending} {n : String} :
    n ∈ openAliases pending ↔ (⟨.named n, []⟩ : Site) ∈ pending.map (·.site) := by
  simp only [openAliases, List.mem_filterMap, List.mem_map]
  constructor
  · rintro ⟨p, hp, h⟩
    refine ⟨p, hp, ?_⟩
    split at h
    · next m hm =>
      rw [Option.some.injEq] at h
      rw [hm, h]
    · simp at h
  · rintro ⟨p, hp, h⟩
    exact ⟨p, hp, by rw [h]⟩

theorem unseen_le_length (seen : List String) (es : Aliases) :
    unseen (fun _ => 1) seen es ≤ es.length := by
  induction es with
  | nil => exact Nat.le_refl _
  | cons e es ih =>
    simp only [unseen, List.length_cons]
    split <;> omega

/-- The budget is enough for the aliases not passed since the last object, and then for all
aliases once for each object that is not being lowered. -/
def Room (g : Aliases) (pending : List Pending) (passed : List String) (budget : Nat) : Prop :=
  unseen (fun _ => 1) (openAliases pending) g * (g.length + 1) + unseen (fun _ => 1) passed g <
    budget

section

variable {g : Aliases} {pending pending' : List Pending} {passed : List String} {n : String}
  {body : SchemaType} {b : Nat}

theorem Room.start (g : Aliases) (pending : List Pending) {b : Nat} (hb : budget g ≤ b) :
    Room g pending [] b := by
  have hopen := unseen_le_length (openAliases pending) g
  have hpassed := unseen_le_length [] g
  have hmul := Nat.mul_le_mul_right (g.length + 1) hopen
  rw [budget, Nat.succ_mul] at hb
  unfold Room
  omega

theorem Room.pass (h : Room g pending passed (b + 1)) (hnew : n ∉ passed)
    (hbody : g.lookup n = some body) : Room g pending (n :: passed) b := by
  have hless := unseen_add_le (fun _ => 1) passed (n :: passed) hnew List.mem_cons_self
    (fun m hm => List.mem_cons_of_mem n hm) hbody
  unfold Room at h ⊢
  omega

theorem Room.deepen (h : Room g pending passed (b + 1)) (hbody : g.lookup n = some body)
    (hdeeper : Deeper ⟨.named n, []⟩ pending pending') : Room g pending' [] b := by
  have hless := unseen_add_le (fun _ => 1) (openAliases pending) (openAliases pending')
    (fun hn => hdeeper.fresh (mem_openAliases.1 hn)) (mem_openAliases.2 hdeeper.entered)
    (fun m hm => mem_openAliases.2 (hdeeper.kept _ (mem_openAliases.1 hm))) hbody
  have hmul := Nat.mul_le_mul_right (g.length + 1) hless
  rw [Nat.succ_mul] at hmul
  have hpassed := unseen_le_length [] g
  unfold Room at h ⊢
  omega

end

/-- No references outside of objects lead from an alias back to it. -/
def LoopFree (g : Aliases) : Prop :=
  ∀ n ∈ g.map (·.1), ¬ OnCycle g Reference.outsideObjects n

/-- Lowering `n` comes down to lowering `m`, with arrays and nulls around. -/
def Unfolds (g : Aliases) (n m : String) : Prop :=
  ∃ chain, follow g (.named n) = .ok chain ∧
    ∃ r ∈ chain.type.references, r.outsideObjects = true ∧ r.target = m

theorem Unfolds.refers {g : Aliases} {n m : String} (h : Unfolds g n m) :
    TransGen (Refers g Reference.outsideObjects) n m := by
  obtain ⟨chain, hchain, r, hr, hout, rfl⟩ := h
  obtain ⟨owner, -, hops⟩ := follow_ok hchain
  exact .tail' (hops.path.lift id fun _ _ => HopsTo.refers) ⟨_, hops.lookup_owner, r, hr, hout, rfl⟩

theorem onCycle_of_unfolds {g : Aliases} {n : String} (h : TransGen (Unfolds g) n n) :
    OnCycle g Reference.outsideObjects n :=
  h.lift' id fun _ _ => Unfolds.refers

section

open Lowering

variable {moduleName : String} {g : Aliases}

theorem lowerType_endless
    {enter : List Pending → List String → String → Lowering (FieldType String)}
    {pending : List Pending} {r : Reference} (hout : r.outsideObjects = true)
    (henter : ∀ path, enter pending path r.target = stop .endless) {site : Site}
    {path : List String} (t : SchemaType) (hr : r ∈ t.references) :
    lowerType moduleName enter pending site path t = stop .endless := by
  cases t with
  | scalar _ | generic | enum _ => simp [SchemaType.references] at hr
  | array element =>
    obtain ⟨q, hq, rfl⟩ := List.mem_map.1 hr
    rw [lowerType, lowerType_endless (r := q) hout henter element hq]
    rfl
  | nullable inner =>
    obtain ⟨q, hq, rfl⟩ := List.mem_map.1 hr
    rw [lowerType, lowerType_endless (r := q) hout henter inner hq]
    rfl
  | object ps => simp [Reference.outsideObjects, crossesProperty_of_mem hr] at hout
  | named n =>
    obtain rfl := List.mem_singleton.1 hr
    exact henter path

theorem lowerAlias_endless {n : String} (h : TransGen (Unfolds g) n n) (b : Nat)
    (pending : List Pending) (path : List String) :
    lowerAlias moduleName g b pending path n = stop .endless := by
  induction b generalizing n path with
  | zero => rfl
  | succ b ih =>
    obtain ⟨m, hnm, hmn⟩ := TransGen.head'_iff.1 h
    have hback : TransGen (Unfolds g) m m := .tail' hmn hnm
    obtain ⟨chain, hchain, r, hr, hout, rfl⟩ := hnm
    have henter : ∀ path, lowerAlias moduleName g b pending path r.target = stop .endless :=
      ih hback
    rw [lowerAlias, hchain]
    dsimp only
    split
    · next ps hps =>
      rw [hps] at hr
      simp [Reference.outsideObjects, crossesProperty_of_mem hr] at hout
    · exact lowerType_endless hout henter _ hr

end

/-- The aliases passed since the last object, and a budget that is enough for `n` and all that
comes of it unless one of them comes again. -/
def Fits (g : Aliases) (pending : List Pending) (n : String) (budget : Nat) : Prop :=
  ∃ passed, (∀ p ∈ passed, TransGen (Unfolds g) p n) ∧ Room g pending passed budget

section

variable {g : Aliases} {pending pending' : List Pending} {n m : String} {b : Nat}

theorem Fits.start (g : Aliases) (pending : List Pending) (n : String) (hb : budget g ≤ b) :
    Fits g pending n b :=
  ⟨[], by simp, Room.start g pending hb⟩

theorem Fits.ne_zero (h : Fits g pending n 0) : False := by
  obtain ⟨passed, -, room⟩ := h
  exact absurd room (Nat.not_lt_zero _)

theorem Fits.pass (h : Fits g pending n (b + 1)) (hn : n ∈ g.map (·.1)) (hnm : Unfolds g n m)
    (hnew : ¬ TransGen (Unfolds g) n n) : Fits g pending m b := by
  obtain ⟨passed, hpassed, room⟩ := h
  obtain ⟨body, hbody⟩ := exists_lookup_of_mem hn
  refine ⟨n :: passed, ?_, room.pass (fun hmem => hnew (hpassed n hmem)) hbody⟩
  rw [List.forall_mem_cons]
  exact ⟨.single hnm, fun p hp => (hpassed p hp).tail hnm⟩

theorem Fits.deepen {owner : String} {body : SchemaType} (h : Fits g pending n (b + 1))
    (hbody : g.lookup owner = some body) (hdeeper : Deeper ⟨.named owner, []⟩ pending pending') :
    Fits g pending' m b := by
  obtain ⟨passed, -, room⟩ := h
  exact ⟨[], by simp, room.deepen hbody hdeeper⟩

end

section

open Lowering

variable {P : Halt HeaderError → Prop} {moduleName : String} {aliases g : Aliases}

theorem follow_halts (hpart : ClosedPart aliases g) {n : String} (hn : n ∈ g.map (·.1))
    {e : HeaderError} (h : follow g (.named n) = .error e) :
    ¬ LoopFree g ∧ (Halt.failed e).Recurs := by
  obtain ⟨m, path, hm⟩ := follow_error h
  have hmem := hpart.mem_of_path hn (path.lift id fun _ _ => HopsTo.refers)
  rcases hm with ⟨⟨walk, rfl⟩, hcycle⟩ | ⟨-, hnone⟩
  · exact ⟨fun hfree => hfree m hmem (hcycle.lift id fun _ _ => HopsTo.refers), trivial⟩
  · exact absurd hmem (lookup_eq_none_iff_notMem.1 hnone)

/-- A reference outside of objects leads on with one alias passed, any other with one object
entered. -/
theorem Fits.follow (hpart : ClosedPart aliases g) {pending pending' : List Pending}
    {n owner : String} {b : Nat} (hfits : Fits g pending n (b + 1)) (hn : n ∈ g.map (·.1))
    (hnew : ¬ TransGen (Unfolds g) n n) {chain : Chain}
    (hchain : SchemaStructs.follow g (.named n) = .ok chain)
    (howner : chain.defining? = some owner) {r : Reference} (hr : r ∈ chain.type.references)
    (hleads : r.LeadsTo ⟨.named owner, []⟩ pending pending') :
    r.target ∈ g.map (·.1) ∧ Fits g pending' r.target b := by
  obtain ⟨owner', howner', hops⟩ := follow_ok hchain
  obtain rfl := Option.some.inj (howner.symm.trans howner')
  have hbody := hops.lookup_owner
  refine ⟨hpart.closed _ (mem_of_lookup hbody) _ (SchemaType.mem_targets.2 ⟨r, hr, rfl⟩), ?_⟩
  rcases hleads with ⟨hout, rfl⟩ | ⟨-, hdeeper⟩
  · exact hfits.pass hn ⟨chain, hchain, r, hr, hout, rfl⟩ hnew
  · exact hfits.deepen hbody hdeeper

theorem lowerAlias_halts (hP : ∀ e, e.Rejects → P e) (hpart : ClosedPart aliases g)
    (hloop : ¬ LoopFree g → ∀ e, e.Recurs → P e) (b : Nat) {pending : List Pending}
    {path : List String} {n : String} (hn : n ∈ g.map (·.1)) (hfits : Fits g pending n b) :
    Halts P (lowerAlias moduleName g b pending path n) := by
  induction b generalizing pending path n with
  | zero => exact hfits.ne_zero.elim
  | succ b ih =>
    -- An alias that comes again with no object in between comes again and again.
    by_cases hnew : TransGen (Unfolds g) n n
    · rw [lowerAlias_endless hnew]
      exact .stop (hloop (fun hfree => hfree n hn (onCycle_of_unfolds hnew)) _ trivial)
    rw [lowerAlias]
    cases hchain : follow g (.named n) with
    | error e =>
      obtain ⟨hround, hrecurs⟩ := follow_halts hpart hn hchain
      exact .fail (hloop hround _ hrecurs)
    | ok chain =>
      obtain ⟨owner, hdefining, -⟩ := follow_ok hchain
      have hnext : ∀ r ∈ chain.type.references, ∀ path pending',
          r.LeadsTo ⟨.named owner, []⟩ pending pending' →
            Halts P (lowerAlias moduleName g b pending' path r.target) := by
        intro r hr path pending' hleads
        obtain ⟨hmem, hfits'⟩ := hfits.follow hpart hn hnew hchain hdefining hr hleads
        exact ih hmem hfits'
      simp only [hdefining, Option.getD_some]
      split
      · next ps hps =>
        rw [hps] at hnext
        refine Halts.get.bind fun s => ?_
        split
        · exact Halts.modify.bind fun _ => .pure _
        · refine (lowerObject_halts hP fun base hdeeper => ?_).bind fun struct => ?_
          · exact lowerProperties_halts hP ps 0 fun r hr path pending' hkept =>
              hnext r hr path pending' (.inr ⟨crossesProperty_of_mem hr, hdeeper.mono hkept⟩)
          · split
            · exact .pure _
            · exact Halts.modify.bind fun _ => .pure _
      · exact lowerType_halts hP _ hnext

theorem lowerAlias_exact (hpart : ClosedPart aliases g) (b b' : Nat) {pending : List Pending}
    {path : List String} {n : String} (hn : n ∈ g.map (·.1)) (hfits : Fits g pending n b) :
    Extends (lowerAlias moduleName g b' pending path n)
      (lowerAlias moduleName g b pending path n) := by
  induction b generalizing b' pending path n with
  | zero => exact hfits.ne_zero.elim
  | succ b ih =>
    by_cases hnew : TransGen (Unfolds g) n n
    · rw [lowerAlias_endless hnew, lowerAlias_endless hnew]
      exact .refl _
    cases b' with
    | zero => exact .endless _
    | succ b' =>
      rw [lowerAlias, lowerAlias]
      cases hchain : follow g (.named n) with
      | error e => exact .refl _
      | ok chain =>
        obtain ⟨owner, hdefining, -⟩ := follow_ok hchain
        have hnext : ∀ r ∈ chain.type.references, ∀ path pending',
            r.LeadsTo ⟨.named owner, []⟩ pending pending' →
              Extends (lowerAlias moduleName g b' pending' path r.target)
                (lowerAlias moduleName g b pending' path r.target) := by
          intro r hr path pending' hleads
          obtain ⟨hmem, hfits'⟩ := hfits.follow hpart hn hnew hchain hdefining hr hleads
          exact ih b' hmem hfits'
        simp only [hdefining, Option.getD_some]
        split
        · next ps hps =>
          rw [hps] at hnext
          refine (Extends.refl _).bind fun s => ?_
          split
          · exact .refl _
          · refine (lowerObject_extends fun base hdeeper => ?_).bind fun struct => .refl _
            exact lowerProperties_extends ps 0 fun r hr path pending' hkept =>
              hnext r hr path pending' (.inr ⟨crossesProperty_of_mem hr, hdeeper.mono hkept⟩)
        · exact lowerType_extends _ hnext

end

end SchemaStructs
