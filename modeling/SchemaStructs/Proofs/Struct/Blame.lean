import SchemaStructs.Proofs.Struct.Budget
import SchemaStructs.Proofs.Struct.Underway

/-!
What lowering fails at. Where it rejects the schema, it has come to the first offence, or it asked
for a name of which all forms were taken. What it passes over, since it was lowered before or is
being lowered, holds no offence that would have come first.
-/

set_option autoImplicit false

namespace SchemaStructs

open Relation Lowering

variable {moduleName : String} {aliases : Aliases} {methods : List Method}

/-- Why the lowering of the types stops: at their first offence, at a name of which all forms are
taken, or without rejecting them. -/
inductive Blames (moduleName : String) (aliases : Aliases) (methods : List Method)
    (vs : List Visit) : Halted → Prop
  | offence {o : Offence} {s : Collected} (h : Survey aliases vs (some o)) :
      Blames moduleName aliases methods vs ⟨.failed (.invalidAt o.path o.defect), s⟩
  | exhausted {pending : List Pending} {s : Collected} {p : Pending}
      (reached : Steps moduleName aliases methods ([], {}) (pending, s)) (mem : p ∈ pending)
      (taken : ∀ n ∈ Naming.candidates p.base Naming.maxNumber, n ∈ s.taken) :
      Blames moduleName aliases methods vs ⟨.failed (.namesExhausted p.base Naming.maxNumber), s⟩
  | other {e : Halted} (h : ¬ e.why.Rejects) : Blames moduleName aliases methods vs e

theorem Blames.imp {vs ws : List Visit} {e : Halted} (h : Blames moduleName aliases methods vs e)
    (hsurvey : ∀ o, Survey aliases vs (some o) → Survey aliases ws (some o)) :
    Blames moduleName aliases methods ws e := by
  cases h with
  | offence h => exact .offence (hsurvey _ h)
  | exhausted reached mem taken => exact .exhausted reached mem taken
  | other h => exact .other h

theorem Blames.of_claim {pending : List Pending} {s : Collected} {p : Pending} {vs : List Visit}
    {e : Halted} (h : (claim p.base).run s = .error e)
    (hs : Underway moduleName aliases methods pending s) (hp : p ∈ pending) :
    Blames moduleName aliases methods vs e := by
  obtain ⟨htaken, rfl⟩ := claim_error h
  exact .exhausted hs.reached hp htaken

def EntersBlaming (moduleName : String) (aliases : Aliases) (methods : List Method)
    (enter : List Pending → List String → String → Lowering (FieldType String)) : Prop :=
  ∀ {pending : List Pending} {path : List String} {n : String} {site : Site} {s : Collected}
    {e : Halted}, Met aliases methods pending site (.named n) →
    Underway moduleName aliases methods pending s → (enter pending path n).run s = .error e →
    Blames moduleName aliases methods [⟨pending.map (·.site), site, path, .named n⟩] e

theorem lowerObject_blames {pending : List Pending} {site : Site} {path : List String}
    {origin : Origin} {ps : List Property} {fields : List Pending → Lowering (List Field)}
    {s : Collected} {e : Halted} (hmet : Met aliases methods pending site (.object ps))
    (hsuits : origin.Suits aliases ps site) (hs : Underway moduleName aliases methods pending s)
    (hfields : ∀ {base : String} {fs : List Field} {s s' : Collected},
      Underway moduleName aliases methods (⟨site, base⟩ :: pending) s →
      (fields (⟨site, base⟩ :: pending)).run s = .ok (fs, s') →
      Underway moduleName aliases methods (⟨site, base⟩ :: pending) s')
    (hblames : ∀ {base : String} {s : Collected} {e : Halted},
      Underway moduleName aliases methods (⟨site, base⟩ :: pending) s →
      (fields (⟨site, base⟩ :: pending)).run s = .error e →
      Blames moduleName aliases methods
        (propertyVisits (site :: pending.map (·.site)) site path 0 ps) e)
    (h : (lowerObject moduleName pending site path origin ps fields).run s = .error e) :
    Blames moduleName aliases methods [⟨pending.map (·.site), site, path, .object ps⟩] e := by
  unfold lowerObject at h
  split at h
  · next p hp =>
    exact .of_claim (reserve_error h) hs (List.mem_of_find?_eq_some hp)
  · next hp =>
    have hfresh := find?_site_eq_none.1 hp
    rw [get_bind] at h
    split at h
    · exact absurd h pure_ne_error
    · next hundone =>
      split at h
      · next p hrepeat =>
        cases h
        exact .offence (o := ⟨path, _⟩)
          (.offence (SchemaType.Offends.object_iff.2 ⟨p, hrepeat, rfl⟩))
      · next hdistinct =>
        have hnodup := (nodup_of_firstRepeat? hdistinct).1
        have henter : Underway moduleName aliases methods
            (⟨site, origin.base moduleName⟩ :: pending) s :=
              hs.enter hmet hsuits hfresh hundone hnodup
        rcases bind_error.1 h with h | ⟨fs, mid, hrun, h⟩
        -- The duplicate check comes before the properties, as in the order of the visits.
        · refine (hblames henter h).imp fun o ho => .single ?_ ?_
          · exact fun d => SchemaType.Offends.not_object hnodup
          · simpa only [Visit.parts, hfresh, if_false] using ho
        · exact .of_claim (settle_error h).2 (hfields henter hrun) List.mem_cons_self

section

variable {enter : List Pending → List String → String → Lowering (FieldType String)}

mutual

theorem lowerType_blames (hsteps : EntersBySteps moduleName aliases methods enter)
    (hpop : ∀ pending path n, Populates FieldType.Populated (enter pending path n))
    (hblames : EntersBlaming moduleName aliases methods enter) {pending : List Pending}
    {site : Site} {path : List String} {s : Collected} {e : Halted} (t : SchemaType)
    (hmet : Met aliases methods pending site t) (hs : Underway moduleName aliases methods pending s)
    (h : (lowerType moduleName enter pending site path t).run s = .error e) :
    Blames moduleName aliases methods [⟨pending.map (·.site), site, path, t⟩] e := by
  match t with
  | .scalar .bool | .scalar .number | .scalar .string | .generic | .enum (_ :: _) =>
    exact absurd h pure_ne_error
  | .scalar .void =>
    rw [lowerType] at h
    cases h
    exact .offence (o := ⟨path, _⟩) (.offence .void)
  | .enum [] =>
    rw [lowerType] at h
    cases h
    exact .offence (o := ⟨path, _⟩) (.offence .emptyEnum)
  | .array element =>
    rw [lowerType] at h
    rcases bind_error.1 h with h | ⟨_, _, -, h⟩
    · exact (lowerType_blames hsteps hpop hblames element hmet.element hs h).imp
        fun o ho => .single nofun ho
    · exact absurd h pure_ne_error
  | .nullable inner =>
    rw [lowerType] at h
    rcases bind_error.1 h with h | ⟨_, _, -, h⟩
    · exact (lowerType_blames hsteps hpop hblames inner hmet.inner hs h).imp
        fun o ho => .single nofun ho
    · exact absurd h pure_ne_error
  | .object ps =>
    rw [lowerType] at h
    rcases bind_error.1 h with h | ⟨_, _, -, h⟩
    · exact lowerObject_blames hmet (.path _ _) hs
        (fun hs hrun => hs.afterProperties hsteps hpop hmet.properties hrun)
        (fun hs hrun => lowerProperties_blames hsteps hpop hblames ps 0
          hmet.properties hs hrun) h
    · exact absurd h pure_ne_error
  | .named n => exact hblames hmet hs h

theorem lowerProperties_blames (hsteps : EntersBySteps moduleName aliases methods enter)
    (hpop : ∀ pending path n, Populates FieldType.Populated (enter pending path n))
    (hblames : EntersBlaming moduleName aliases methods enter) {pending : List Pending}
    {site : Site} {path : List String} {s : Collected} {e : Halted} (ps : List Property) (k : Nat)
    (hmet : EachProperty (Met aliases methods pending) site k ps)
    (hs : Underway moduleName aliases methods pending s)
    (h : (lowerProperties moduleName enter pending site path k ps).run s = .error e) :
    Blames moduleName aliases methods
      (propertyVisits (pending.map (·.site)) site path k ps) e := by
  match ps with
  | [] => exact absurd h pure_ne_error
  | ⟨name, t, optional⟩ :: ps =>
    have hhead := hmet.head
    rw [lowerProperties] at h
    rcases bind_error.1 h with h | ⟨f, mid, hf, h⟩
    · exact (lowerType_blames hsteps hpop hblames t hhead hs h).imp
        fun o ho => ho.append_some
    · -- A property that was lowered holds nothing wrong, not even behind what is on record.
      obtain ⟨hs', hlow, hpopulated⟩ := hs.afterType hsteps hpop hhead hf
      have hclear := hs'.survey hlow hpopulated hhead.occurs (path ++ [name])
      rcases bind_error.1 h with h | ⟨_, _, -, h⟩
      · exact (lowerProperties_blames hsteps hpop hblames ps (k + 1) hmet.tail hs' h).imp
          fun o ho => hclear.append fun _ => ho
      · exact absurd h pure_ne_error

end

end

/-- Where names lead to no type, the schema is not what is wrong. -/
theorem not_rejects_of_follow {g : Aliases} {n : String} {e : HeaderError}
    (h : follow g (.named n) = .error e) : ¬ (Halt.failed e).Rejects := by
  obtain ⟨m, -, ⟨⟨path, rfl⟩, -⟩ | ⟨rfl, -⟩⟩ := follow_error h <;> exact nofun

theorem lowerAlias_blames {g : Aliases}
    (hg : ∀ n body, g.lookup n = some body → aliases.lookup n = some body) (budget : Nat) :
    EntersBlaming moduleName aliases methods (lowerAlias moduleName g budget) := by
  induction budget with
  | zero =>
    intro pending path n site s e hmet hs h
    rw [lowerAlias] at h
    cases h
    exact .other (by simp)
  | succ budget ih =>
    intro pending path n site s e hmet hs h
    have hsteps : EntersBySteps moduleName aliases methods (lowerAlias moduleName g budget) :=
      lowerAlias_steps hg budget
    rw [lowerAlias] at h
    split at h
    · next e' hchain =>
      cases h
      exact .other (not_rejects_of_follow hchain)
    · next chain hchain =>
      obtain ⟨owner, hdefining, hops⟩ := follow_ok hchain
      replace hops := hops.mono hg
      have hbody := hops.met hmet
      simp only [hdefining, Option.getD_some] at h
      split at h
      · next ps hps =>
        rw [hps] at hops hbody
        rw [get_bind] at h
        split at h
        · exact absurd h recordNamed_ne_error
        · rcases bind_error.1 h with h | ⟨struct, mid, -, h⟩
          · refine (lowerObject_blames hbody (.named hops.lookup_owner) hs (fun hs hrun => ?_)
              (fun hs hrun => ?_) h).imp fun o ho => hops.survey ho
            · exact hs.afterProperties hsteps (lowerAlias_populates budget)
                hbody.properties hrun
            · exact lowerProperties_blames hsteps (lowerAlias_populates budget) ih ps 0
                hbody.properties hs hrun
          · split at h
            · exact absurd h pure_ne_error
            · exact absurd h recordNamed_ne_error
      · exact (lowerType_blames hsteps (lowerAlias_populates budget) ih _ hbody hs h).imp
          fun o ho => hops.survey ho

section

variable {within : Aliases → Nat} {g : Aliases} {i : Nat} {slot : Slot}
  {rest : List (Slot × Aliases)} {s s' : Collected}

theorem Listed.enters (hrest : Listed aliases methods i ((slot, g) :: rest)) (budget : Nat) :
    EntersBySteps moduleName aliases methods (lowerAlias moduleName g budget) ∧
      EntersBlaming moduleName aliases methods (lowerAlias moduleName g budget) :=
  have hg := fun _ _ => (hrest 0 slot g rfl).2.lookup_mono
  ⟨lowerAlias_steps hg budget, lowerAlias_blames hg budget⟩

theorem Underway.afterSlot (hs : Underway moduleName aliases methods [] s)
    (hrest : Listed aliases methods i ((slot, g) :: rest))
    (hvalue : (slot.isResult && slot.type.isVoid) = false) {f : FieldType String}
    (h : (lowerType moduleName (lowerAlias moduleName g (within g)) [] ⟨.slot i, []⟩ slot.path
      slot.type).run s = .ok (f, s')) :
    Underway moduleName aliases methods [] s' ∧
      Survey aliases [⟨[], ⟨.slot i, []⟩, slot.path, slot.type⟩] none := by
  have hmet := hrest.met hvalue
  obtain ⟨hs', hlow, hpopulated⟩ :=
    hs.afterType (hrest.enters _).1 (lowerAlias_populates _) hmet h
  exact ⟨hs', hs'.survey hlow hpopulated hmet.occurs slot.path⟩

theorem lowerSlots_blames {e : Halted} (hrest : Listed aliases methods i rest)
    (hs : Underway moduleName aliases methods [] s)
    (h : (lowerSlots moduleName within i rest).run s = .error e) :
    Blames moduleName aliases methods (slotVisits i (rest.map (·.1))) e := by
  induction rest generalizing i s with
  | nil => exact absurd h pure_ne_error
  | cons head rest ih =>
    obtain ⟨slot, g⟩ := head
    rw [lowerSlots] at h
    rw [List.map_cons, slotVisits]
    split at h
    · next hvoid =>
      rw [if_pos hvoid]
      exact ih hrest.tail hs h
    · next hvoid =>
      rw [Bool.not_eq_true] at hvoid
      rw [hvoid, if_neg Bool.false_ne_true]
      rcases bind_error.1 h with h | ⟨f, mid, hf, h⟩
      · exact (lowerType_blames (hrest.enters _).1 (lowerAlias_populates _) (hrest.enters _).2
          slot.type (hrest.met hvoid) hs h).imp fun o ho => ho.append_some
      · obtain ⟨hs', hclear⟩ := hs.afterSlot hrest hvoid hf
        exact (ih hrest.tail hs' h).imp fun o ho => hclear.append fun _ => ho

theorem lowerSlots_survey (hrest : Listed aliases methods i rest)
    (hs : Underway moduleName aliases methods [] s)
    (h : (lowerSlots moduleName within i rest).run s = .ok ((), s')) :
    Survey aliases (slotVisits i (rest.map (·.1))) none := by
  induction rest generalizing i s with
  | nil => exact .done
  | cons head rest ih =>
    obtain ⟨slot, g⟩ := head
    rw [lowerSlots] at h
    rw [List.map_cons, slotVisits]
    split at h
    · next hvoid =>
      rw [if_pos hvoid]
      exact ih hrest.tail hs h
    · next hvoid =>
      rw [Bool.not_eq_true] at hvoid
      rw [hvoid, if_neg Bool.false_ne_true]
      obtain ⟨f, mid, hf, h⟩ := bind_ok.1 h
      obtain ⟨hs', hclear⟩ := hs.afterSlot hrest hvoid hf
      exact hclear.append fun _ => ih hrest.tail hs' h

end

end SchemaStructs
