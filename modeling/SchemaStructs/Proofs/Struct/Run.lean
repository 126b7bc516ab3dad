import SchemaStructs.Proofs.Struct.Invariant

set_option autoImplicit false

namespace SchemaStructs

open Relation Lowering

variable {moduleName : String} {aliases : Aliases} {methods : List Method}

def EntersBySteps (moduleName : String) (aliases : Aliases) (methods : List Method)
    (enter : List Pending → List String → String → Lowering (FieldType String)) : Prop :=
  ∀ {pending : List Pending} {path : List String} {n : String} {site : Site} {s s' : Collected}
    {f : FieldType String}, Met aliases methods pending site (.named n) →
    Invariant aliases methods (pending, s) → (enter pending path n).run s = .ok (f, s') →
    Steps moduleName aliases methods (pending, s) (pending, s') ∧
      ∀ place, Lowers aliases s'.Names place (.named n) f

theorem find?_site_eq_none {pending : List Pending} {site : Site} :
    pending.find? (·.site == site) = none ↔ site ∉ pending.map (·.site) := by
  simp [List.find?_eq_none]

theorem nodup_of_firstRepeat? {seen ns : List String} (h : firstRepeat? seen ns = none) :
    ns.Nodup ∧ ∀ n ∈ ns, n ∉ seen := by
  induction ns generalizing seen with
  | nil => simp
  | cons n ns ih =>
    simp only [firstRepeat?, List.contains_eq_mem, decide_eq_true_eq] at h
    split at h
    · simp at h
    · next hn =>
      obtain ⟨hnodup, hnew⟩ := ih h
      have hns : n ∉ ns := fun hmem => hnew n hmem List.mem_cons_self
      refine ⟨List.nodup_cons.2 ⟨hns, hnodup⟩, List.forall_mem_cons.2 ⟨hn, fun m hm => ?_⟩⟩
      exact fun hseen => hnew m hm (List.mem_cons_of_mem n hseen)

/-- The struct of an object is known once the object is lowered, and done unless it is still being
lowered further out. -/
theorem lowerObject_steps {pending : List Pending} {site : Site}
    {path : List String} {origin : Origin} {ps : List Property}
    {fields : List Pending → Lowering (List Field)} {s s' : Collected} {name : String}
    (hmet : Met aliases methods pending site (.object ps))
    (hsuits : origin.Suits aliases ps site)
    (hfields : ∀ {base : String} {s s' : Collected} {fs : List Field},
      Invariant aliases methods (⟨site, base⟩ :: pending, s) →
      (fields (⟨site, base⟩ :: pending)).run s = .ok (fs, s') →
      Steps moduleName aliases methods (⟨site, base⟩ :: pending, s) (⟨site, base⟩ :: pending, s') ∧
        LowersAll aliases s'.Names site 0 ps fs)
    (hi : Invariant aliases methods (pending, s))
    (h : (lowerObject moduleName pending site path origin ps fields).run s = .ok (name, s')) :
    Steps moduleName aliases methods (pending, s) (pending, s') ∧ s'.Names site name ∧
      (site ∉ pending.map (·.site) → s'.lowered.lookup site = some name) := by
  unfold lowerObject at h
  -- The object is being lowered further out, or it is done, or it is entered now.
  split at h
  · next p hp =>
    have hmem := List.mem_of_find?_eq_some hp
    have hsite : p.site = site := by simpa using List.find?_some hp
    refine ⟨.single (.reserve hmem h), .inr ?_, fun hnot => ?_⟩
    · rw [← hsite]
      rcases reserve_ok h with ⟨hheld, rfl⟩ | ⟨-, -, -, rfl⟩
      · exact hheld
      · exact List.lookup_cons_self
    · exact absurd (hsite ▸ List.mem_map_of_mem hmem) hnot
  · next hp =>
    have hfresh := find?_site_eq_none.1 hp
    rw [get_bind] at h
    split at h
    · next done hdone =>
      obtain ⟨rfl, rfl⟩ := pure_ok.1 h
      exact ⟨.refl, .inl hdone, fun _ => hdone⟩
    · next hundone =>
      split at h
      · simp at h
      · next hdistinct =>
        obtain ⟨fs, mid, hrun, hsettle⟩ := bind_ok.1 h
        have henter : Step moduleName aliases methods (pending, s)
            (⟨site, origin.base moduleName⟩ :: pending, s) := .enter hmet hsuits hfresh hundone
        have hnodup := (nodup_of_firstRepeat? hdistinct).1
        have hi' := henter.invariant hi
        obtain ⟨hsteps, hall⟩ := hfields hi' hrun
        have hdone := (Steps.invariant hsteps hi').booked.settles hsettle
        refine ⟨.trans (.head henter hsteps)
          (.single (.settle hmet.occurs hsuits hnodup hall hsettle)), hdone.names, fun _ => ?_⟩
        rw [hdone.lowered, List.lookup_cons_self]

section

variable {enter : List Pending → List String → String → Lowering (FieldType String)}

mutual

theorem lowerType_steps (henter : EntersBySteps moduleName aliases methods enter)
    {pending : List Pending} {site : Site} {path : List String} {s s' : Collected}
    {f : FieldType String} (t : SchemaType) (hmet : Met aliases methods pending site t)
    (hi : Invariant aliases methods (pending, s))
    (h : (lowerType moduleName enter pending site path t).run s = .ok (f, s')) :
    Steps moduleName aliases methods (pending, s) (pending, s') ∧
      Lowers aliases s'.Names site t f := by
  match t with
  | .scalar .bool =>
    obtain ⟨rfl, rfl⟩ := pure_ok.1 h
    exact ⟨.refl, .bool⟩
  | .scalar .number =>
    obtain ⟨rfl, rfl⟩ := pure_ok.1 h
    exact ⟨.refl, .number⟩
  | .scalar .string =>
    obtain ⟨rfl, rfl⟩ := pure_ok.1 h
    exact ⟨.refl, .string⟩
  | .scalar .void => simp [lowerType] at h
  | .generic =>
    obtain ⟨rfl, rfl⟩ := pure_ok.1 h
    exact ⟨.refl, .generic⟩
  | .enum [] => simp [lowerType] at h
  | .enum (_ :: _) =>
    obtain ⟨rfl, rfl⟩ := pure_ok.1 h
    exact ⟨.refl, .enum⟩
  | .array element =>
    obtain ⟨f, mid, hf, hrest⟩ := bind_ok.1 h
    obtain ⟨rfl, rfl⟩ := pure_ok.1 hrest
    obtain ⟨hsteps, hlow⟩ := lowerType_steps henter element hmet.element hi hf
    exact ⟨hsteps, .array hlow⟩
  | .nullable inner =>
    obtain ⟨f, mid, hf, hrest⟩ := bind_ok.1 h
    obtain ⟨rfl, rfl⟩ := pure_ok.1 hrest
    obtain ⟨hsteps, hlow⟩ := lowerType_steps henter inner hmet.inner hi hf
    exact ⟨hsteps, .nullable hlow⟩
  | .object ps =>
    obtain ⟨name, mid, hname, hrest⟩ := bind_ok.1 h
    obtain ⟨rfl, rfl⟩ := pure_ok.1 hrest
    obtain ⟨hsteps, hnames, -⟩ := lowerObject_steps hmet (.path _ _)
      (fun hi hfs => lowerProperties_steps henter ps 0 hmet.properties hi hfs) hi hname
    exact ⟨hsteps, .object hnames⟩
  | .named n =>
    obtain ⟨hsteps, hlow⟩ := henter hmet hi h
    exact ⟨hsteps, hlow site⟩

theorem lowerProperties_steps (henter : EntersBySteps moduleName aliases methods enter)
    {pending : List Pending} {site : Site} {path : List String} {s s' : Collected}
    {fs : List Field} (ps : List Property) (k : Nat)
    (hmet : EachProperty (Met aliases methods pending) site k ps)
    (hi : Invariant aliases methods (pending, s))
    (h : (lowerProperties moduleName enter pending site path k ps).run s = .ok (fs, s')) :
    Steps moduleName aliases methods (pending, s) (pending, s') ∧
      LowersAll aliases s'.Names site k ps fs := by
  match ps with
  | [] =>
    obtain ⟨rfl, rfl⟩ := pure_ok.1 h
    exact ⟨.refl, .nil⟩
  | ⟨name, t, optional⟩ :: ps =>
    obtain ⟨f, mid, hf, hrest⟩ := bind_ok.1 h
    obtain ⟨fs, mid', hfs, hrest⟩ := bind_ok.1 hrest
    obtain ⟨rfl, rfl⟩ := pure_ok.1 hrest
    obtain ⟨hsteps, hlow⟩ := lowerType_steps henter t hmet.head hi hf
    have hmid := Steps.invariant hsteps hi
    obtain ⟨hsteps', hall⟩ := lowerProperties_steps henter ps (k + 1) hmet.tail hmid hfs
    exact ⟨hsteps.trans hsteps', .cons (hlow.mono fun _ _ => Steps.names hsteps' hmid) hall⟩

end

end

/-- An object that an alias defines has one struct under all names that lead to it. -/
theorem lowerAlias_steps {g : Aliases}
    (hg : ∀ n body, g.lookup n = some body → aliases.lookup n = some body) (budget : Nat) :
    EntersBySteps moduleName aliases methods (lowerAlias moduleName g budget) := by
  -- Each alias entered on the way costs one, so the types between two aliases need no measure.
  induction budget with
  | zero =>
    intro pending path n site s s' f hmet hi h
    simp [lowerAlias] at h
  | succ budget ih =>
    intro pending path n site s s' f hmet hi h
    rw [lowerAlias] at h
    split at h
    · simp at h
    · next chain hchain =>
      obtain ⟨owner, hdefining, hops⟩ := follow_ok hchain
      replace hops := hops.mono hg
      have hbody := hops.met hmet
      simp only [hdefining, Option.getD_some] at h
      split at h
      · next ps hps =>
        rw [hps] at hops hbody
        rw [get_bind] at h
        split at h
        · next struct hstruct =>
          obtain ⟨rfl, rfl⟩ := recordNamed_ok.1 h
          obtain ⟨⟨k, hk⟩, hlow⟩ := hi.faithful.named _ (mem_of_lookup hstruct)
          -- What is on record for the owner was found to stand for its name, hence for its body.
          have hall := hops.lowers (by
            cases hlow ⟨.named owner, []⟩ with
            | named hlookup hlow =>
              rw [hops.lookup_owner, Option.some.injEq] at hlookup
              rw [hlookup]
              exact hlow)
          exact ⟨.single (.record hk hall), hall n hops.head_mem⟩
        · obtain ⟨struct, mid, hobject, hrest⟩ := bind_ok.1 h
          obtain ⟨hsteps, hnames, hdone⟩ := lowerObject_steps hbody
            (.named hops.lookup_owner) (fun hi hfs => lowerProperties_steps ih ps 0 hbody.properties
              hi hfs) hi hobject
          have hall := hops.lowers (.object hnames)
          split at hrest
          · obtain ⟨rfl, rfl⟩ := pure_ok.1 hrest
            exact ⟨hsteps, hall n hops.head_mem⟩
          · next hfresh =>
            obtain ⟨rfl, rfl⟩ := recordNamed_ok.1 hrest
            have hnot : (⟨.named owner, []⟩ : Site) ∉ pending.map (·.site) := by
              simpa using hfresh
            exact ⟨hsteps.tail (.record (hdone hnot) hall), hall n hops.head_mem⟩
      · obtain ⟨hsteps, hlow⟩ := lowerType_steps ih _ hbody hi h
        exact ⟨hsteps, hops.lowers hlow n hops.head_mem⟩

end SchemaStructs
