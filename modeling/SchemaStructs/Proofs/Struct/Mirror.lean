import SchemaStructs.Proofs.Struct.Blame
import SchemaStructs.Proofs.Struct.Plain

/-!
Where no alias leads back to itself, lowering with all that it remembers does what plain lowering
does: it gives the same types and the same structs, and rejects the schema for the same reason.
What it has on record, plain lowering finds again; and it meets no object that is being lowered.
-/

set_option autoImplicit false

namespace SchemaStructs

open Relation Lowering

/-- From `s` on the computation does what the plain one does with the structs of `s`, unless it
stops without rejecting the schema. -/
structure Mirrors {α : Type} (x : Lowering α) (y : Plain α) (s : Collected) : Prop where
  ok : ∀ a s', x.run s = .ok (a, s') → s'.Tidy ∧ y.run s.structs = .ok (a, s'.structs)
  error : ∀ e, x.run s = .error e → e.why.Rejects →
    ∃ e', e.why = .failed e' ∧ y.run s.structs = .error e'

namespace Mirrors

variable {α β : Type} {s : Collected}

theorem pure (h : s.Tidy) {a : α} : Mirrors (Pure.pure a) (Pure.pure a) s where
  ok := by
    intro b s' hrun
    obtain ⟨rfl, rfl⟩ := pure_ok.1 hrun
    exact ⟨h, rfl⟩
  error := fun e hrun => absurd hrun pure_ne_error

theorem fail {e : HeaderError} :
    Mirrors (Lowering.fail e) (MonadExcept.throw e : Plain α) s where
  ok := fun a s' hrun => by simp at hrun
  error := by
    intro e' hrun _
    cases hrun
    exact ⟨e, rfl, rfl⟩

theorem stop {why : Halt HeaderError} (h : ¬ why.Rejects) {y : Plain α} :
    Mirrors (Lowering.stop why) y s where
  ok := fun a s' hrun => by simp at hrun
  error := by
    intro e hrun he
    cases hrun
    exact absurd he h

theorem bind {x : Lowering α} {y : Plain α} {f : α → Lowering β} {g : α → Plain β}
    (h : Mirrors x y s)
    (hf : ∀ a s', x.run s = .ok (a, s') → s'.Tidy → Mirrors (f a) (g a) s') :
    Mirrors (x >>= f) (y >>= g) s where
  ok := by
    intro b s' hrun
    obtain ⟨a, mid, hx, hrest⟩ := bind_ok.1 hrun
    obtain ⟨hmid, hy⟩ := h.ok a mid hx
    rw [Plain.bind_of_ok hy]
    exact (hf a mid hx hmid).ok b s' hrest
  error := by
    intro e hrun he
    rcases bind_error.1 hrun with hx | ⟨a, mid, hx, hrest⟩
    · obtain ⟨e', hwhy, hy⟩ := h.error e hx he
      exact ⟨e', hwhy, Plain.bind_of_error hy⟩
    · obtain ⟨hmid, hy⟩ := h.ok a mid hx
      rw [Plain.bind_of_ok hy]
      exact (hf a mid hx hmid).error e hrest he

theorem get {f : Collected → Lowering α} {y : Plain α} (h : Mirrors (f s) y s) :
    Mirrors (MonadState.get >>= f) y s := ⟨h.ok, h.error⟩

theorem recordNamed (h : s.Tidy) {names : List String} {struct : String} {a : α} :
    Mirrors (Lowering.recordNamed names struct >>= fun _ => Pure.pure a) (Pure.pure a) s where
  ok := by
    intro b s' hrun
    obtain ⟨rfl, rfl⟩ := recordNamed_ok.1 hrun
    exact ⟨⟨h.reserved, h.distinct⟩, rfl⟩
  error := by
    intro e hrun
    exact absurd hrun recordNamed_ne_error

theorem congr {x : Lowering α} {y y' : Plain α} (h : Mirrors x y s)
    (hy : y'.run s.structs = y.run s.structs) : Mirrors x y' s where
  ok := by simpa only [hy] using h.ok
  error := by simpa only [hy] using h.error

end Mirrors

theorem firstFree?_perm {taken taken' : List String} (h : taken.Perm taken') (base : String)
    (last : Nat) : Naming.firstFree? taken base last = Naming.firstFree? taken' base last := by
  have hsame : (fun n => !taken.contains n) = fun n => !taken'.contains n :=
    funext fun n => by simp [h.mem_iff]
  rw [Naming.firstFree?, Naming.firstFree?, hsame]

variable {moduleName : String} {aliases : Aliases} {methods : List Method}

theorem settle_mirrors {pending : List Pending} {site : Site} {origin : Origin}
    {fields : List Field} {s : Collected} (hs : Underway moduleName aliases methods pending s)
    (ht : s.Tidy) : Mirrors (settle site (origin.base moduleName) origin fields)
      (plainStruct moduleName origin fields) s := by
  have hbooked := hs.invariant.booked
  have hreserved : (released s site).reserved = [] := by simp [released, ht.reserved]
  have hfree := firstFree?_perm (hs.taken_perm ht) (origin.base moduleName) Naming.maxNumber
  have hfresh : s.shapes.lookup fields = none →
      s.structs.find? (·.fields == fields) = none := fun h => by
    rwa [hbooked.shapes, Option.map_eq_none_iff] at h
  constructor
  -- With no name reserved, the object is the earlier struct with its fields or a new one.
  · intro name s' hrun
    rcases settle_free hrun with ⟨hheld, -⟩ | ⟨-, hshape, rfl⟩ | ⟨-, hshape, hname, rfl⟩
    · simp [ht.reserved] at hheld
    · rw [hbooked.shapes, Option.map_eq_some_iff] at hshape
      obtain ⟨t, hfind, rfl⟩ := hshape
      exact ⟨⟨hreserved, ht.distinct⟩, plainStruct_earlier hfind⟩
    · have hfind := hfresh hshape
      refine ⟨⟨hreserved, ?_⟩, ?_⟩
      · simp only [Collected.add, released, List.map_append, List.map_cons, List.map_nil]
        refine List.nodup_append.2 ⟨ht.distinct, List.nodup_singleton _, ?_⟩
        rintro _ hmem _ hsingle rfl
        obtain ⟨t, ht, hfields⟩ := List.mem_map.1 hmem
        rw [List.mem_singleton.1 hsingle] at hfields
        simpa [hfields] using List.find?_eq_none.1 hfind t ht
      · rw [plainStruct_new hfind, ← hfree, hname]
        rfl
  · intro e hrun _
    obtain ⟨hshape, hclaim⟩ := settle_error hrun
    obtain ⟨htaken, rfl⟩ := claim_error hclaim
    have hnone : Naming.firstFree? s.taken (origin.base moduleName) Naming.maxNumber = none :=
      List.find?_eq_none.2 fun n hn => by simpa using htaken n hn
    refine ⟨_, rfl, ?_⟩
    rw [plainStruct_new (hfresh hshape), ← hfree, hnone]

/-- Where nothing is recursive, no object is met while it is being lowered. -/
theorem Met.notMem_pending (hacyclic : ¬ Recursive aliases methods) {pending : List Pending}
    {site : Site} {ps : List Property} (hmet : Met aliases methods pending site (.object ps))
    (hnested : Nested aliases methods pending) : site ∉ pending.map (·.site) := by
  intro hmem
  obtain ⟨p, hp, rfl⟩ := List.mem_map.1 hmem
  cases pending with
  | nil => cases hp
  | cons top pending =>
    have hheld : Contains aliases methods top.site p.site := ⟨ps, hmet.held top rfl⟩
    have hcircle : TransGen (Contains aliases methods) p.site p.site := by
      rcases List.mem_cons.1 hp with rfl | hp
      · exact .single hheld
      · exact ((List.pairwise_cons.1 hnested).1 p hp).tail hheld
    exact hacyclic (recursive_of_circle hcircle)

theorem lowerObject_mirrors (hacyclic : ¬ Recursive aliases methods) {pending : List Pending}
    {site : Site} {path : List String} {origin : Origin} {ps : List Property}
    {fields : List Pending → Lowering (List Field)} {lowered : Plain (List Field)} {s : Collected}
    (hmet : Met aliases methods pending site (.object ps)) (hsuits : origin.Suits aliases ps site)
    (hs : Underway moduleName aliases methods pending s) (ht : s.Tidy)
    (hagain : ∀ name, s.lowered.lookup site = some name →
      (plainObject moduleName path origin ps lowered).run s.structs = .ok (name, s.structs))
    (hfields : ∀ {base : String} {fs : List Field} {s s' : Collected},
      Underway moduleName aliases methods (⟨site, base⟩ :: pending) s →
      (fields (⟨site, base⟩ :: pending)).run s = .ok (fs, s') →
      Underway moduleName aliases methods (⟨site, base⟩ :: pending) s')
    (hmirrors : ∀ {base : String} {s : Collected},
      Underway moduleName aliases methods (⟨site, base⟩ :: pending) s → s.Tidy →
      Mirrors (fields (⟨site, base⟩ :: pending)) lowered s) :
    Mirrors (lowerObject moduleName pending site path origin ps fields)
      (plainObject moduleName path origin ps lowered) s := by
  have hfresh := hmet.notMem_pending hacyclic (Steps.ordered hs.reached).1
  rw [lowerObject, find?_site_eq_none.2 hfresh]
  refine .get ?_
  split
  · next name hdone => exact (Mirrors.pure ht).congr (hagain name hdone)
  · next hundone =>
    rw [plainObject]
    cases hdistinct : firstRepeat? [] (ps.map (·.name)) with
    | some p => exact .fail
    | none =>
      have henter : Underway moduleName aliases methods
          (⟨site, origin.base moduleName⟩ :: pending) s :=
        hs.enter hmet hsuits hfresh hundone (nodup_of_firstRepeat? hdistinct).1
      exact (hmirrors henter ht).bind fun fs mid hrun hmid =>
        settle_mirrors (hfields henter hrun) hmid

def EntersMirroring (moduleName : String) (aliases : Aliases) (methods : List Method)
    (enter : List Pending → List String → String → Lowering (FieldType String)) : Prop :=
  ∀ {pending : List Pending} {passed path : List String} {n : String} {site : Site} {s : Collected},
    Met aliases methods pending site (.named n) → LeadTo aliases passed (.named n) →
    Underway moduleName aliases methods pending s → s.Tidy →
    Mirrors (enter pending path n) (plainAlias moduleName aliases passed path n) s

section

variable {enter : List Pending → List String → String → Lowering (FieldType String)}

mutual

theorem lowerType_mirrors (hacyclic : ¬ Recursive aliases methods)
    (hsteps : EntersBySteps moduleName aliases methods enter)
    (hpop : ∀ pending path n, Populates FieldType.Populated (enter pending path n))
    (hmirrors : EntersMirroring moduleName aliases methods enter) {pending : List Pending}
    {site : Site} {passed path : List String} {s : Collected} (t : SchemaType)
    (hmet : Met aliases methods pending site t) (hlead : LeadTo aliases passed t)
    (hs : Underway moduleName aliases methods pending s) (ht : s.Tidy) :
    Mirrors (lowerType moduleName enter pending site path t)
      (plainType moduleName (plainAlias moduleName aliases passed) none path t) s := by
  match t with
  | .scalar .bool | .scalar .number | .scalar .string | .generic | .enum (_ :: _) => exact .pure ht
  | .scalar .void | .enum [] => exact .fail
  | .array element =>
    rw [lowerType, plainType]
    exact (lowerType_mirrors hacyclic hsteps hpop hmirrors element hmet.element hlead.element hs
      ht).bind fun f mid _ hmid => .pure hmid
  | .nullable inner =>
    rw [lowerType, plainType]
    exact (lowerType_mirrors hacyclic hsteps hpop hmirrors inner hmet.inner hlead.inner hs
      ht).bind fun f mid _ hmid => .pure hmid
  | .object ps =>
    rw [lowerType, plainType]
    refine (lowerObject_mirrors hacyclic hmet (.path _ _) hs ht (fun name hdone => ?_)
      (fun hs hrun => ?_) fun hs ht => ?_).bind fun name mid _ hmid => .pure hmid
    · exact hs.plainObject_again ht hacyclic none hdone hmet.occurs hlead
    · exact hs.afterProperties hsteps hpop hmet.properties hrun
    · exact lowerProperties_mirrors hacyclic hsteps hpop hmirrors ps 0
        hmet.properties (fun _ hp => hlead.property hp) hs ht
  | .named n =>
    rw [lowerType, plainType]
    exact hmirrors hmet hlead hs ht

theorem lowerProperties_mirrors (hacyclic : ¬ Recursive aliases methods)
    (hsteps : EntersBySteps moduleName aliases methods enter)
    (hpop : ∀ pending path n, Populates FieldType.Populated (enter pending path n))
    (hmirrors : EntersMirroring moduleName aliases methods enter) {pending : List Pending}
    {site : Site} {passed path : List String} {s : Collected} (ps : List Property) (k : Nat)
    (hmet : EachProperty (Met aliases methods pending) site k ps)
    (hlead : ∀ p ∈ ps, LeadTo aliases passed p.type)
    (hs : Underway moduleName aliases methods pending s) (ht : s.Tidy) :
    Mirrors (lowerProperties moduleName enter pending site path k ps)
      (plainProperties moduleName (plainAlias moduleName aliases passed) path ps) s := by
  match ps with
  | [] => exact .pure ht
  | ⟨name, t, optional⟩ :: ps =>
    have hhead := hmet.head
    rw [lowerProperties, plainProperties]
    refine (lowerType_mirrors hacyclic hsteps hpop hmirrors t hhead (hlead _ List.mem_cons_self) hs
      ht).bind fun f mid hrun hmid => ?_
    have hs' := (hs.afterType hsteps hpop hhead hrun).1
    refine (lowerProperties_mirrors hacyclic hsteps hpop hmirrors ps (k + 1) hmet.tail
      (fun p hp => hlead p (List.mem_cons_of_mem _ hp)) hs' hmid).bind fun fs last _ hlast => ?_
    exact .pure hlast

end

end

/-- Over the names of a chain plain lowering comes to the type at its end. -/
theorem Hops.plainAlias (hacyclic : ¬ Recursive aliases methods) {n owner : String}
    {names : List String} {t : SchemaType} (h : Hops aliases n names owner t)
    {passed : List String} {site : Site} (hocc : Occurs aliases methods site (.named n))
    (hlead : LeadTo aliases passed (.named n)) (path : List String) :
    ∃ passed', LeadTo aliases passed' t ∧
      SchemaStructs.plainAlias moduleName aliases passed path n =
        plainType moduleName (SchemaStructs.plainAlias moduleName aliases passed') (some owner)
          path t := by
  induction h generalizing passed site with
  | @last n t hbody =>
    exact ⟨n :: passed, hlead.definition hbody,
      plainAlias_defined (hlead.notMem hacyclic hocc hbody) hbody⟩
  | @hop n m owner names t hbody _ ih =>
    obtain ⟨passed', hlead', hrest⟩ := ih (hocc.definition hbody) (hlead.definition hbody)
    refine ⟨passed', hlead', ?_⟩
    rw [plainAlias_defined (hlead.notMem hacyclic hocc hbody) hbody, plainType, hrest]

/-- The struct on record for an alias is that of its object, which is done. -/
theorem Underway.lowered_of_named {pending : List Pending} {s : Collected}
    (hs : Underway moduleName aliases methods pending s) (ht : s.Tidy) {n struct : String}
    {ps : List Property} (hbody : aliases.lookup n = some (.object ps))
    (hstruct : s.named.lookup n = some struct) :
    s.lowered.lookup ⟨.named n, []⟩ = some struct := by
  have hstands : ∀ place, Lowers aliases s.Names place (.named n) (.struct struct) :=
    (hs.invariant.faithful.named _ (mem_of_lookup hstruct)).2
  cases hstands ⟨.named n, []⟩ with
  | named hlookup hlow =>
    rw [hbody, Option.some.injEq] at hlookup
    subst hlookup
    cases hlow with
    | object hname => exact hname.resolve_right fun hheld => by simp [ht.reserved] at hheld

theorem plainType_owner {enter : List String → String → Plain (FieldType String)}
    {owner : Option String} {path : List String} {t : SchemaType} (h : ∀ ps, t ≠ .object ps) :
    plainType moduleName enter owner path t = plainType moduleName enter none path t := by
  cases t with
  | object ps => exact absurd rfl (h ps)
  | scalar kind => cases kind <;> simp only [plainType]
  | enum members => cases members <;> simp only [plainType]
  | array | nullable | generic | named => simp only [plainType]

theorem lowerAlias_mirrors (hacyclic : ¬ Recursive aliases methods) {g : Aliases}
    (hg : ∀ n body, g.lookup n = some body → aliases.lookup n = some body) (budget : Nat) :
    EntersMirroring moduleName aliases methods (lowerAlias moduleName g budget) := by
  induction budget with
  | zero =>
    intro pending passed path n site s _ _ _ _
    rw [lowerAlias]
    exact .stop (by simp)
  | succ budget ih =>
    intro pending passed path n site s hmet hlead hs ht
    have hsteps : EntersBySteps moduleName aliases methods (lowerAlias moduleName g budget) :=
      lowerAlias_steps hg budget
    have hpop : ∀ pending path n,
        Populates FieldType.Populated (lowerAlias moduleName g budget pending path n) :=
      lowerAlias_populates budget
    rw [lowerAlias]
    split
    · next e hchain => exact .stop (not_rejects_of_follow hchain)
    · next chain hchain =>
      obtain ⟨owner, hdefining, hops⟩ := follow_ok hchain
      replace hops := hops.mono hg
      have hbody := hops.met hmet
      obtain ⟨passed', hlead', hplain⟩ := hops.plainAlias hacyclic hmet.occurs hlead path
      rw [hplain]
      simp only [hdefining, Option.getD_some]
      split
      · next ps hps =>
        rw [hps] at hops hbody hlead' ⊢
        have hagain : ∀ struct, s.lowered.lookup ⟨.named owner, []⟩ = some struct →
            (plainObject moduleName path (.named owner) ps (plainProperties moduleName
              (plainAlias moduleName aliases passed') path ps)).run s.structs =
                .ok (struct, s.structs) :=
          fun struct hdone =>
            hs.plainObject_again ht hacyclic (some owner) hdone hbody.occurs hlead'
        rw [plainType]
        refine .get ?_
        split
        · next struct hstruct =>
          -- A struct on record is that of the object, which plain lowering finds by its fields.
          have hdone := hs.lowered_of_named ht hops.lookup_owner hstruct
          exact (Mirrors.recordNamed ht).congr (Plain.bind_of_ok (hagain struct hdone))
        · have hsuits := Origin.Suits.named hops.lookup_owner
          refine (lowerObject_mirrors hacyclic hbody hsuits hs ht hagain (fun hs hrun => ?_)
            fun hs ht => ?_).bind fun struct mid _ hmid => ?_
          · exact hs.afterProperties hsteps hpop hbody.properties hrun
          · exact lowerProperties_mirrors hacyclic hsteps hpop ih ps 0
              hbody.properties (fun _ hp => hlead'.property hp) hs ht
          · split
            · exact .pure hmid
            · exact .recordNamed hmid
      · next hnot =>
        rw [plainType_owner hnot]
        exact lowerType_mirrors hacyclic hsteps hpop ih _ hbody hlead' hs ht

theorem lowerSlots_mirrors (hacyclic : ¬ Recursive aliases methods) {within : Aliases → Nat}
    {i : Nat} {rest : List (Slot × Aliases)} {s : Collected} (hrest : Listed aliases methods i rest)
    (hs : Underway moduleName aliases methods [] s) (ht : s.Tidy) :
    Mirrors (lowerSlots moduleName within i rest)
      (plainSlots moduleName aliases (rest.map (·.1))) s := by
  induction rest generalizing i s with
  | nil => exact .pure ht
  | cons head rest ih =>
    obtain ⟨slot, g⟩ := head
    rw [lowerSlots, List.map_cons, plainSlots]
    split
    · exact ih hrest.tail hs ht
    · next hvoid =>
      rw [Bool.not_eq_true] at hvoid
      have hg : ∀ n body, g.lookup n = some body → aliases.lookup n = some body :=
        fun _ _ => (hrest 0 slot g rfl).2.lookup_mono
      refine Mirrors.bind ?_
        fun f mid hrun hmid => ih hrest.tail (hs.afterSlot hrest hvoid hrun).1 hmid
      exact lowerType_mirrors hacyclic (hrest.enters _).1 (lowerAlias_populates _)
        (lowerAlias_mirrors hacyclic hg _) slot.type (hrest.met hvoid)
        (fun _ hp => absurd hp List.not_mem_nil) hs ht

end SchemaStructs
