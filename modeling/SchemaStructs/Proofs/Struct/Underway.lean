import SchemaStructs.Proofs.Struct.Names
import SchemaStructs.Proofs.Struct.Populated
import SchemaStructs.Proofs.Struct.Survey

set_option autoImplicit false

namespace SchemaStructs

open Relation

section

variable {aliases : Aliases} {methods : List Method} {names : Site → String → Prop}
  {opened : List Site}

theorem Lowers.survey {site : Site} {t : SchemaType} {f : FieldType String} {path : List String}
    (h : Lowers aliases names site t f) (hf : f.Populated)
    (hocc : Occurs aliases methods site t)
    (hobject : ∀ place name ps path, names place name → Occurs aliases methods place (.object ps) →
      Survey aliases [⟨opened, place, path, .object ps⟩] none) :
    Survey aliases [⟨opened, site, path, t⟩] none := by
  induction h generalizing path with
  | bool | number | string | generic => exact .single nofun .done
  | enum => exact .single (fun d h => by cases h; exact hf rfl) .done
  | array _ ih => exact .single nofun (ih hf hocc.element)
  | nullable _ ih => exact .single nofun (ih hf hocc.inner)
  | object hname => exact hobject _ _ _ _ hname hocc
  | named hbody _ ih =>
    exact .single nofun (by simpa only [Visit.parts, hbody] using ih hf (hocc.definition hbody))

theorem LowersAll.survey {site : Site} {k : Nat} {ps : List Property} {fs : List Field}
    {path : List String} (h : LowersAll aliases names site k ps fs)
    (hf : ∀ f ∈ fs, f.type.Populated)
    (hocc : EachProperty (Occurs aliases methods) site k ps)
    (hobject : ∀ place name ps path, names place name → Occurs aliases methods place (.object ps) →
      Survey aliases [⟨opened, place, path, .object ps⟩] none) :
    Survey aliases (propertyVisits opened site path k ps) none := by
  induction h with
  | nil => exact .done
  | @cons k _ _ _ _ _ _ head _ ih =>
    obtain ⟨hhead, hrest⟩ := List.forall_mem_cons.1 hf
    exact (head.survey hhead hocc.head hobject).append fun _ => ih hrest hocc.tail

end

def Cleared (aliases : Aliases) (methods : List Method) (sites : List Site) : Prop :=
  ∀ site ∈ sites, ∀ ps, Occurs aliases methods site (.object ps) → (ps.map (·.name)).Nodup

/-- Lowering has come this far, through sound types only. -/
structure Underway (moduleName : String) (aliases : Aliases) (methods : List Method)
    (pending : List Pending) (s : Collected) : Prop where
  reached : Steps moduleName aliases methods ([], {}) (pending, s)
  populated : s.Populated
  cleared : Cleared aliases methods (pending.map (·.site))

namespace Underway

variable {moduleName : String} {aliases : Aliases} {methods : List Method}
  {pending : List Pending} {s s' : Collected}

theorem invariant (h : Underway moduleName aliases methods pending s) :
    Invariant aliases methods (pending, s) := Steps.invariant h.reached .initial

theorem initial : Underway moduleName aliases methods [] {} :=
  ⟨.refl, fun t ht => by simp at ht, fun k hk => by simp at hk⟩

theorem enter (h : Underway moduleName aliases methods pending s) {site : Site}
    {origin : Origin} {ps : List Property} (met : Met aliases methods pending site (.object ps))
    (suits : origin.Suits aliases ps site) (fresh : site ∉ pending.map (·.site))
    (unlowered : s.lowered.lookup site = none)
    (distinct : (ps.map (·.name)).Nodup) :
    Underway moduleName aliases methods (⟨site, origin.base moduleName⟩ :: pending) s := by
  refine ⟨h.reached.tail (.enter met suits fresh unlowered), h.populated, fun k hk qs hqs => ?_⟩
  rcases List.mem_cons.1 hk with rfl | hk
  · rw [hqs.object_unique met.occurs]
    exact distinct
  · exact h.cleared k hk qs hqs

theorem steps (h : Underway moduleName aliases methods pending s)
    (hsteps : Steps moduleName aliases methods (pending, s) (pending, s')) (hs' : s'.Populated) :
    Underway moduleName aliases methods pending s' :=
  ⟨h.reached.trans hsteps, hs', h.cleared⟩

/-- An object that is done has the fields that stand for its properties. -/
theorem exists_struct (h : Underway moduleName aliases methods pending s) {site : Site}
    {name : String} {ps : List Property} (hname : s.lowered.lookup site = some name)
    (hocc : Occurs aliases methods site (.object ps)) :
    ∃ t ∈ s.structs, t.name = name ∧ LowersAll aliases s.Names site 0 ps t.fields ∧
      (ps.map (·.name)).Nodup := by
  obtain ⟨qs, hqs, t, ht, hname, hall⟩ := h.invariant.faithful.lowered site name hname
  rw [hqs.object_unique hocc] at hall
  exact ⟨t, ht, hname, hall, hall.names_eq ▸ ((Steps.named h.reached).structs t ht).distinct⟩

/-- Whatever is open, an object that is done or being lowered holds nothing wrong apart from what
is open. One more object is open each time, so the way through them comes to an end. -/
theorem survey_object (h : Underway moduleName aliases methods pending s) (rest : List Site)
    {opened : List Site} (hopened : ∀ k ∈ pending.map (·.site), k ∈ opened)
    (hrest : ∀ k name, s.lowered.lookup k = some name → k ∉ opened → k ∈ rest)
    (hcleared : Cleared aliases methods opened) {site : Site} {name : String} {ps : List Property}
    {path : List String} (hname : s.Names site name)
    (hocc : Occurs aliases methods site (.object ps)) :
    Survey aliases [⟨opened, site, path, .object ps⟩] none := by
  induction hlength : rest.length using Nat.strongRecOn
    generalizing rest opened site name ps path with
  | ind length ih =>
    by_cases hsite : site ∈ opened
    · refine .single (fun d => SchemaType.Offends.not_object (hcleared site hsite ps hocc)) ?_
      simp only [Visit.parts, hsite, if_true]
      exact .done
    · have hdone : s.lowered.lookup site = some name := by
        refine hname.resolve_right fun hheld => hsite (hopened site ?_)
        exact h.invariant.booked.reservedPending site (mem_keys_of_lookup hheld)
      obtain ⟨t, ht, -, hall, hnodup⟩ := h.exists_struct hdone hocc
      refine .single (fun d => SchemaType.Offends.not_object hnodup) ?_
      simp only [Visit.parts, hsite, if_false]
      refine hall.survey (h.populated t ht) hocc.properties ?_
      -- What is left to open is one less, whatever the types between the two objects.
      have hmem := hrest site name hdone hsite
      have hless : (rest.erase site).length < length := by
        have := List.length_pos_of_mem hmem
        rw [List.length_erase_of_mem hmem]
        omega
      refine fun _ _ _ _ hname' hocc' => ih _ hless (rest.erase site) ?_ ?_ ?_ hname' hocc' rfl
      · exact fun k hk => List.mem_cons_of_mem site (hopened k hk)
      · intro k n hk hnot
        rw [List.mem_cons, not_or] at hnot
        exact (List.mem_erase_of_ne hnot.1).2 (hrest k n hk hnot.2)
      · intro k hk qs hqs
        rcases List.mem_cons.1 hk with rfl | hk
        · rw [hqs.object_unique hocc]
          exact hnodup
        · exact hcleared k hk qs hqs

theorem survey (h : Underway moduleName aliases methods pending s) {site : Site} {t : SchemaType}
    {f : FieldType String} (hlow : Lowers aliases s.Names site t f) (hf : f.Populated)
    (hocc : Occurs aliases methods site t) (path : List String) :
    Survey aliases [⟨pending.map (·.site), site, path, t⟩] none :=
  hlow.survey hf hocc fun _ _ _ _ => h.survey_object (s.lowered.map (·.1)) (fun _ hk => hk)
    (fun _ _ hk _ => mem_keys_of_lookup hk) h.cleared

section

variable {enter : List Pending → List String → String → Lowering (FieldType String)}
  (hsteps : EntersBySteps moduleName aliases methods enter)
  (hpop : ∀ pending path n, Populates FieldType.Populated (enter pending path n))

include hsteps hpop

theorem afterType (hs : Underway moduleName aliases methods pending s) {site : Site}
    {path : List String} {t : SchemaType} {f : FieldType String}
    (hmet : Met aliases methods pending site t)
    (h : (lowerType moduleName enter pending site path t).run s = .ok (f, s')) :
    Underway moduleName aliases methods pending s' ∧ Lowers aliases s'.Names site t f ∧
      f.Populated := by
  obtain ⟨hrun, hlow⟩ := lowerType_steps hsteps t hmet hs.invariant h
  obtain ⟨hpopulated, hf⟩ := lowerType_populates hpop t s s' f hs.populated h
  exact ⟨hs.steps hrun hpopulated, hlow, hf⟩

theorem afterProperties (hs : Underway moduleName aliases methods pending s) {site : Site}
    {path : List String} {ps : List Property} {k : Nat} {fs : List Field}
    (hmet : EachProperty (Met aliases methods pending) site k ps)
    (h : (lowerProperties moduleName enter pending site path k ps).run s = .ok (fs, s')) :
    Underway moduleName aliases methods pending s' :=
  hs.steps (lowerProperties_steps hsteps ps k hmet hs.invariant h).1
    (lowerProperties_populates hpop ps k s s' fs hs.populated h).1

end

end Underway

end SchemaStructs
