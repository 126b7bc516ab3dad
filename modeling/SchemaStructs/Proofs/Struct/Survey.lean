import SchemaStructs.Proofs.Struct.Meaning

/-!
The first thing that is wrong with a schema. Types are looked through depth first and in their
order, each before its parts, and nothing is remembered on the way but the objects that are open.
Still the way comes to all that the methods reach, unless it comes to an offence before.
-/

set_option autoImplicit false

namespace SchemaStructs

/-- What is wrong with the type itself, whatever its parts are. -/
inductive SchemaType.Offends : SchemaType → Defect → Prop
  | void : Offends (.scalar .void) .voidValue
  | emptyEnum : Offends (.enum []) .emptyEnum
  /-- Of the names that come again the first is reported. -/
  | duplicate {ps : List Property} {before after : List String} {p : String}
      (names : ps.map (·.name) = before ++ p :: after) (again : p ∈ before)
      (distinct : before.Nodup) : Offends (.object ps) (.duplicateProperty p)

/-- A type on the way through a schema, within the objects that are open. -/
structure Visit where
  opened : List Site
  site : Site
  path : List String
  type : SchemaType

def propertyVisits (opened : List Site) (site : Site) (path : List String) :
    Nat → List Property → List Visit
  | _, [] => []
  | k, p :: ps =>
    ⟨opened, site.under k, path ++ [p.name], p.type⟩ :: propertyVisits opened site path (k + 1) ps

/-- The parts of a type in their order; an object that is open is not entered again. -/
def Visit.parts (aliases : Aliases) : Visit → List Visit
  | ⟨opened, site, path, .array element⟩ =>
    [⟨opened, site, path ++ [Naming.elementSegment], element⟩]
  | ⟨opened, site, path, .nullable inner⟩ => [⟨opened, site, path, inner⟩]
  | ⟨opened, site, path, .object ps⟩ =>
    if site ∈ opened then [] else propertyVisits (site :: opened) site path 0 ps
  | ⟨opened, _, path, .named n⟩ =>
    match aliases.lookup n with
    | some body => [⟨opened, ⟨.named n, []⟩, path, body⟩]
    | none => []
  | _ => []

def slotVisits (i : Nat) : List Slot → List Visit
  | [] => []
  | slot :: slots =>
    if slot.isResult && slot.type.isVoid then slotVisits (i + 1) slots
    else ⟨[], ⟨.slot i, []⟩, slot.path, slot.type⟩ :: slotVisits (i + 1) slots

structure Offence where
  path : List String
  defect : Defect

/-- The way depth first through the types, each before its parts, comes to this offence first, or to
its end without any. -/
inductive Survey (aliases : Aliases) : List Visit → Option Offence → Prop
  | done : Survey aliases [] none
  | offence {v : Visit} {rest : List Visit} {d : Defect} (h : v.type.Offends d) :
      Survey aliases (v :: rest) (some ⟨v.path, d⟩)
  | pass {v : Visit} {rest : List Visit} {found : Option Offence} (h : ∀ d, ¬ v.type.Offends d)
      (next : Survey aliases (v.parts aliases ++ rest) found) : Survey aliases (v :: rest) found

section

variable {seen ns : List String} {p : String}

theorem exists_of_firstRepeat? (h : firstRepeat? seen ns = some p) :
    ∃ before after, ns = before ++ p :: after ∧ p ∈ seen ++ before ∧ before.Nodup ∧
      ∀ n ∈ before, n ∉ seen := by
  induction ns generalizing seen with
  | nil => simp [firstRepeat?] at h
  | cons n ns ih =>
    simp only [firstRepeat?, List.contains_eq_mem, decide_eq_true_eq] at h
    split at h
    · next hn =>
      cases h
      exact ⟨[], ns, rfl, by simpa using hn, .nil, by simp⟩
    · next hn =>
      obtain ⟨before, after, rfl, hmem, hnodup, hnew⟩ := ih h
      have hfresh : n ∉ before := fun h => hnew n h List.mem_cons_self
      refine ⟨n :: before, after, rfl, ?_, List.nodup_cons.2 ⟨hfresh, hnodup⟩, ?_⟩
      · simpa [or_left_comm, or_assoc] using hmem
      · exact List.forall_mem_cons.2 ⟨hn, fun m hm h => hnew m hm (List.mem_cons_of_mem n h)⟩

theorem firstRepeat?_append {before after : List String} (hmem : p ∈ seen ++ before)
    (hnodup : before.Nodup) (hnew : ∀ n ∈ before, n ∉ seen) :
    firstRepeat? seen (before ++ p :: after) = some p := by
  induction before generalizing seen with
  | nil =>
    rw [List.append_nil] at hmem
    simp [firstRepeat?, hmem]
  | cons m before ih =>
    obtain ⟨hfresh, hnodup⟩ := List.nodup_cons.1 hnodup
    obtain ⟨hm, hnew⟩ := List.forall_mem_cons.1 hnew
    simp only [List.cons_append, firstRepeat?, List.contains_eq_mem, hm, decide_false,
      Bool.false_eq_true, if_false]
    refine ih ?_ hnodup fun n hn hseen => ?_
    · simpa [or_left_comm, or_assoc] using hmem
    · rcases List.mem_cons.1 hseen with rfl | hseen
      · exact hfresh hn
      · exact hnew n hn hseen

theorem firstRepeat?_eq_some_iff : firstRepeat? seen ns = some p ↔
    ∃ before after, ns = before ++ p :: after ∧ p ∈ seen ++ before ∧ before.Nodup ∧
      ∀ n ∈ before, n ∉ seen := by
  refine ⟨exists_of_firstRepeat?, ?_⟩
  rintro ⟨before, after, rfl, hmem, hnodup, hnew⟩
  exact firstRepeat?_append hmem hnodup hnew

theorem firstRepeat?_eq_none (h : ns.Nodup) : firstRepeat? [] ns = none := by
  rw [Option.eq_none_iff_forall_ne_some]
  intro p hp
  obtain ⟨before, after, rfl, hmem, -, -⟩ := firstRepeat?_eq_some_iff.1 hp
  exact (List.nodup_append.1 h).2.2 p hmem p List.mem_cons_self rfl

end

namespace SchemaType.Offends

variable {ps : List Property} {d d' : Defect}

theorem object_iff : (SchemaType.object ps).Offends d ↔
    ∃ p, firstRepeat? [] (ps.map (·.name)) = some p ∧ d = .duplicateProperty p := by
  simp only [firstRepeat?_eq_some_iff, List.nil_append]
  constructor
  · rintro ⟨⟩
    next before after p again distinct names =>
    exact ⟨p, ⟨before, after, names, again, distinct, by simp⟩, rfl⟩
  · rintro ⟨p, ⟨before, after, names, again, distinct, -⟩, rfl⟩
    exact .duplicate names again distinct

theorem unique {t : SchemaType} (h : t.Offends d) (h' : t.Offends d') : d = d' := by
  cases h with
  | void | emptyEnum =>
    cases h'
    rfl
  | duplicate names again distinct =>
    obtain ⟨p, hp, hd⟩ := object_iff.1 (.duplicate names again distinct)
    obtain ⟨p', hp', rfl⟩ := object_iff.1 h'
    rw [hp, Option.some.injEq] at hp'
    rw [hd, hp']

theorem not_object (h : (ps.map (·.name)).Nodup) : ¬ (SchemaType.object ps).Offends d := by
  intro hd
  obtain ⟨p, hp, -⟩ := object_iff.1 hd
  rw [firstRepeat?_eq_none h] at hp
  cases hp

end SchemaType.Offends

namespace Survey

variable {aliases : Aliases} {vs ws : List Visit} {v : Visit} {found found' : Option Offence}

theorem unique (h : Survey aliases vs found) (h' : Survey aliases vs found') : found = found' := by
  induction h with
  | done =>
    cases h'
    rfl
  | offence h =>
    cases h' with
    | offence h' => rw [h.unique h']
    | pass h' => exact absurd h (h' _)
  | pass h _ ih =>
    cases h' with
    | offence h' => exact absurd h' (h _)
    | pass _ next => exact ih next

theorem append (h : Survey aliases vs found) (h' : found = none → Survey aliases ws found') :
    Survey aliases (vs ++ ws) (found.or found') := by
  induction h with
  | done => exact h' rfl
  | offence h => exact .offence h
  | pass h _ ih =>
    rw [List.append_assoc] at ih
    exact .pass h (ih h')

theorem append_some {o : Offence} (h : Survey aliases vs (some o)) :
    Survey aliases (vs ++ ws) (some o) :=
  h.append (show some o = none → Survey aliases ws none from nofun)

theorem single (h : ∀ d, ¬ v.type.Offends d) (next : Survey aliases (v.parts aliases) found) :
    Survey aliases [v] found :=
  .pass h (by rwa [List.append_nil])

end Survey

section

variable {aliases : Aliases} {methods : List Method} {opened : List Site} {site : Site}
  {path : List String}

theorem mem_propertyVisits {k : Nat} {ps : List Property} {v : Visit} :
    v ∈ propertyVisits opened site path k ps ↔ ∃ i p, ps[i]? = some p ∧
      v = ⟨opened, site.under (k + i), path ++ [p.name], p.type⟩ := by
  induction ps generalizing k with
  | nil => simp [propertyVisits]
  | cons p ps ih =>
    rw [← Nat.or_exists_add_one]
    simp [propertyVisits, ih, Nat.add_assoc, Nat.add_comm 1]

theorem mem_slotVisits {i : Nat} {slots : List Slot} {v : Visit} :
    v ∈ slotVisits i slots ↔ ∃ k slot, slots[k]? = some slot ∧
      (slot.isResult && slot.type.isVoid) = false ∧
        v = ⟨[], ⟨.slot (i + k), []⟩, slot.path, slot.type⟩ := by
  induction slots generalizing i with
  | nil => simp [slotVisits]
  | cons slot slots ih =>
    rw [slotVisits, ← Nat.or_exists_add_one]
    cases hvoid : slot.isResult && slot.type.isVoid <;>
      simp [-Bool.and_eq_false_imp, hvoid, ih, Nat.add_assoc, Nat.add_comm 1]

theorem Visit.parts_occurs {v w : Visit} (h : Occurs aliases methods v.site v.type)
    (hw : w ∈ v.parts aliases) : Occurs aliases methods w.site w.type := by
  unfold Visit.parts at hw
  split at hw
  · rw [List.mem_singleton.1 hw]
    exact h.element
  · rw [List.mem_singleton.1 hw]
    exact h.inner
  · split at hw
    · simp at hw
    · obtain ⟨i, p, hp, rfl⟩ := mem_propertyVisits.1 hw
      rw [Nat.zero_add]
      exact h.property hp
  · split at hw
    · next hbody =>
      rw [List.mem_singleton.1 hw]
      exact h.definition hbody
    · simp at hw
  · simp at hw

theorem Survey.exists_occurs {vs : List Visit} {o : Offence} (h : Survey aliases vs (some o))
    (hocc : ∀ v ∈ vs, Occurs aliases methods v.site v.type) :
    ∃ place t, Occurs aliases methods place t ∧ t.Offends o.defect := by
  generalize hfound : some o = found at h
  induction h with
  | done => cases hfound
  | offence h =>
    cases hfound
    exact ⟨_, _, hocc _ List.mem_cons_self, h⟩
  | pass _ _ ih =>
    refine ih (fun w hw => ?_) hfound
    rcases List.mem_append.1 hw with hw | hw
    · exact Visit.parts_occurs (hocc _ List.mem_cons_self) hw
    · exact hocc w (List.mem_cons_of_mem _ hw)

/-- The way from the roots leads to this type unless there is an offence before. -/
inductive Visited (aliases : Aliases) (roots : List Visit) : Visit → Prop
  | root {v : Visit} (h : v ∈ roots) : Visited aliases roots v
  | part {v w : Visit} (h : Visited aliases roots v) (hw : w ∈ v.parts aliases) :
      Visited aliases roots w

theorem not_visited_nil {v : Visit} : ¬ Visited aliases [] v := by
  intro h
  induction h with
  | root h => cases h
  | part _ _ ih => exact ih

theorem Visited.cases_head {v w : Visit} {rest : List Visit}
    (h : Visited aliases (v :: rest) w) : w = v ∨ Visited aliases (v.parts aliases ++ rest) w := by
  induction h with
  | root h =>
    rcases List.mem_cons.1 h with rfl | h
    · exact .inl rfl
    · exact .inr (.root (List.mem_append_right _ h))
  | part _ hw ih =>
    rcases ih with rfl | ih
    · exact .inr (.root (List.mem_append_left _ hw))
    · exact .inr (.part ih hw)

theorem Survey.not_offends {vs : List Visit} (h : Survey aliases vs none) {v : Visit}
    (hv : Visited aliases vs v) {d : Defect} : ¬ v.type.Offends d := by
  generalize hfound : (none : Option Offence) = found at h
  induction h with
  | done => exact absurd hv not_visited_nil
  | offence => cases hfound
  | pass h _ ih =>
    rcases hv.cases_head with rfl | hv
    · exact h d
    · exact ih hv hfound

/-- The open objects at a part are those at the whole, and the whole itself if it is an object. -/
theorem Visit.mem_opened {v w : Visit} {k : Site} (hw : w ∈ v.parts aliases) (hk : k ∈ w.opened) :
    k ∈ v.opened ∨ v.site = k ∧ k ∉ v.opened ∧ ∃ ps, v.type = .object ps := by
  unfold Visit.parts at hw
  split at hw
  · rw [List.mem_singleton.1 hw] at hk
    exact .inl hk
  · rw [List.mem_singleton.1 hw] at hk
    exact .inl hk
  · split at hw
    · simp at hw
    · next hfresh =>
      obtain ⟨i, p, -, rfl⟩ := mem_propertyVisits.1 hw
      rcases List.mem_cons.1 hk with rfl | hk
      · exact .inr ⟨rfl, hfresh, _, rfl⟩
      · exact .inl hk
  · split at hw
    · rw [List.mem_singleton.1 hw] at hk
      exact .inl hk
    · simp at hw
  · simp at hw

theorem Visited.exists_entered {roots : List Visit} (hroots : ∀ v ∈ roots, v.opened = [])
    {v : Visit} (h : Visited aliases roots v) {k : Site} (hk : k ∈ v.opened) :
    ∃ u, Visited aliases roots u ∧ u.site = k ∧ k ∉ u.opened ∧ ∃ ps, u.type = .object ps := by
  induction h with
  | root h => simp [hroots _ h] at hk
  | part h hw ih =>
    rcases Visit.mem_opened hw hk with hk | hentered
    · exact ih hk
    · exact ⟨_, h, hentered⟩

theorem Visited.occurs {roots : List Visit}
    (hroots : ∀ v ∈ roots, Occurs aliases methods v.site v.type) {v : Visit}
    (h : Visited aliases roots v) : Occurs aliases methods v.site v.type := by
  induction h with
  | root h => exact hroots _ h
  | part _ hw ih => exact Visit.parts_occurs ih hw

theorem Visited.property {roots : List Visit} {v : Visit} (h : Visited aliases roots v)
    (hfresh : v.site ∉ v.opened) {ps : List Property} (htype : v.type = .object ps) {k : Nat}
    {p : Property} (hp : ps[k]? = some p) :
    ∃ w, Visited aliases roots w ∧ w.site = v.site.under k ∧ w.type = p.type := by
  obtain ⟨opened, site, path, _⟩ := v
  dsimp only at htype hfresh
  subst htype
  refine ⟨⟨site :: opened, site.under k, path ++ [p.name], p.type⟩, h.part ?_, rfl, rfl⟩
  simp only [Visit.parts, hfresh, if_false]
  exact mem_propertyVisits.2 ⟨k, p, hp, by rw [Nat.zero_add]⟩

theorem slotVisits_occurs : ∀ v ∈ slotVisits 0 (methods.flatMap Method.slots),
    Occurs aliases methods v.site v.type := by
  intro v hv
  obtain ⟨k, slot, hslot, hvalue, rfl⟩ := mem_slotVisits.1 hv
  rw [Nat.zero_add]
  exact .slot hslot hvalue

/-- The way leads to all that the methods reach: an object that is not entered again has been
entered before. -/
theorem Occurs.exists_visited {t : SchemaType} (h : Occurs aliases methods site t) :
    ∃ v, Visited aliases (slotVisits 0 (methods.flatMap Method.slots)) v ∧
      v.site = site ∧ v.type = t := by
  induction h with
  | @slot i slot hslot hvalue =>
    refine ⟨_, .root (mem_slotVisits.2 ⟨i, slot, hslot, hvalue, rfl⟩), ?_, rfl⟩
    rw [Nat.zero_add]
  | element _ ih | inner _ ih =>
    obtain ⟨⟨opened, site, path, _⟩, hv, rfl, rfl⟩ := ih
    exact ⟨_, hv.part (List.mem_singleton.2 rfl), rfl, rfl⟩
  | @property site ps k p h hp ih =>
    obtain ⟨v, hv, rfl, htype⟩ := ih
    by_cases hmem : v.site ∈ v.opened
    -- The way does not go on here, but it did where the object was entered.
    · have hroots : ∀ v ∈ slotVisits 0 (methods.flatMap Method.slots), v.opened = [] := by
        intro v hv
        obtain ⟨_, _, -, -, rfl⟩ := mem_slotVisits.1 hv
        rfl
      obtain ⟨u, hu, hsite, hfresh, qs, hqs⟩ := hv.exists_entered hroots hmem
      have hocc := hu.occurs slotVisits_occurs
      rw [hsite, hqs] at hocc
      rw [hocc.object_unique h] at hqs
      rw [← hsite] at hfresh ⊢
      exact hu.property hfresh hqs hp
    · exact hv.property hmem htype hp
  | @definition site n body h hbody ih =>
    obtain ⟨⟨opened, site, path, _⟩, hv, rfl, rfl⟩ := ih
    exact ⟨⟨opened, ⟨.named n, []⟩, path, body⟩, hv.part (by simp [Visit.parts, hbody]), rfl, rfl⟩

/-- Where the way comes to its end, nothing that the methods reach offends. -/
theorem Survey.not_offends_of_occurs
    (h : Survey aliases (slotVisits 0 (methods.flatMap Method.slots)) none) {t : SchemaType}
    {d : Defect} (hocc : Occurs aliases methods site t) : ¬ t.Offends d := by
  obtain ⟨v, hv, -, rfl⟩ := hocc.exists_visited
  exact h.not_offends hv

/-- Over the names of a chain the way leads to the type at its end. -/
theorem Hops.survey {n owner : String} {names : List String} {t : SchemaType}
    {found : Option Offence} (h : Hops aliases n names owner t)
    (hsurvey : Survey aliases [⟨opened, ⟨.named owner, []⟩, path, t⟩] found) :
    Survey aliases [⟨opened, site, path, .named n⟩] found := by
  induction h generalizing site with
  | last hbody => exact .single nofun (by simpa only [Visit.parts, hbody] using hsurvey)
  | hop hbody _ ih => exact .single nofun (by simpa only [Visit.parts, hbody] using ih hsurvey)

end

end SchemaStructs
