import SchemaStructs.Proofs.Alias.Chain
import SchemaStructs.Proofs.Struct.Fields
import SchemaStructs.Struct.Lowering

/-!
What it means that structs stand for the objects of a schema: where types occur in the methods of
a module, and which field type stands for a type once the objects have their structs.
-/

set_option autoImplicit false

namespace SchemaStructs

/-- The methods reach the type at the site. A result without a value is no type to reach. -/
inductive Occurs (aliases : Aliases) (methods : List Method) : Site → SchemaType → Prop
  | slot {i : Nat} {slot : Slot} (hslot : (methods.flatMap Method.slots)[i]? = some slot)
      (hvalue : (slot.isResult && slot.type.isVoid) = false) :
      Occurs aliases methods ⟨.slot i, []⟩ slot.type
  | element {site : Site} {t : SchemaType} (h : Occurs aliases methods site (.array t)) :
      Occurs aliases methods site t
  | inner {site : Site} {t : SchemaType} (h : Occurs aliases methods site (.nullable t)) :
      Occurs aliases methods site t
  | property {site : Site} {ps : List Property} {k : Nat} {p : Property}
      (h : Occurs aliases methods site (.object ps)) (hp : ps[k]? = some p) :
      Occurs aliases methods (site.under k) p.type
  | definition {site : Site} {n : String} {body : SchemaType}
      (h : Occurs aliases methods site (.named n)) (hbody : aliases.lookup n = some body) :
      Occurs aliases methods ⟨.named n, []⟩ body

/-- This holds of the types of the properties at their sites, which are numbered from `k` on. -/
def EachProperty (P : Site → SchemaType → Prop) (site : Site) (k : Nat) (ps : List Property) :
    Prop :=
  ∀ i p, ps[i]? = some p → P (site.under (k + i)) p.type

namespace EachProperty

variable {P : Site → SchemaType → Prop} {site : Site} {k : Nat} {p : Property}
  {ps : List Property}

theorem intro (h : ∀ i p, ps[i]? = some p → P (site.under i) p.type) :
    EachProperty P site 0 ps := by
  intro i p hp
  rw [Nat.zero_add]
  exact h i p hp

theorem head (h : EachProperty P site k (p :: ps)) : P (site.under k) p.type := h 0 p rfl

theorem tail (h : EachProperty P site k (p :: ps)) : EachProperty P site (k + 1) ps := by
  intro i q hq
  rw [Nat.add_assoc, Nat.add_comm 1]
  exact h (i + 1) q hq

end EachProperty

theorem Occurs.properties {aliases : Aliases} {methods : List Method} {site : Site}
    {ps : List Property} (h : Occurs aliases methods site (.object ps)) :
    EachProperty (Occurs aliases methods) site 0 ps := .intro fun _ _ => h.property

/-- The field type stands for the type at the site, where `names` names the structs of objects. -/
inductive Lowers (aliases : Aliases) (names : Site → String → Prop) :
    Site → SchemaType → FieldType String → Prop
  | bool {site : Site} : Lowers aliases names site (.scalar .bool) .bool
  | number {site : Site} : Lowers aliases names site (.scalar .number) .number
  | string {site : Site} : Lowers aliases names site (.scalar .string) .string
  | generic {site : Site} : Lowers aliases names site .generic .generic
  | enum {site : Site} {members : List String} :
      Lowers aliases names site (.enum members) (.enum members)
  | array {site : Site} {t : SchemaType} {f : FieldType String}
      (h : Lowers aliases names site t f) : Lowers aliases names site (.array t) (.array f)
  | nullable {site : Site} {t : SchemaType} {f : FieldType String}
      (h : Lowers aliases names site t f) : Lowers aliases names site (.nullable t) (.nullable f)
  | object {site : Site} {ps : List Property} {name : String} (h : names site name) :
      Lowers aliases names site (.object ps) (.struct name)
  | named {site : Site} {n : String} {body : SchemaType} {f : FieldType String}
      (hbody : aliases.lookup n = some body) (h : Lowers aliases names ⟨.named n, []⟩ body f) :
      Lowers aliases names site (.named n) f

/-- The fields stand for the properties, one for one and in order, from the one at `k` on. -/
inductive LowersAll (aliases : Aliases) (names : Site → String → Prop) (site : Site) :
    Nat → List Property → List Field → Prop
  | nil {k : Nat} : LowersAll aliases names site k [] []
  | cons {k : Nat} {name : String} {t : SchemaType} {f : FieldType String} {optional : Bool}
      {ps : List Property} {fs : List Field} (head : Lowers aliases names (site.under k) t f)
      (tail : LowersAll aliases names site (k + 1) ps fs) :
      LowersAll aliases names site k (⟨name, t, optional⟩ :: ps) (⟨name, f, optional⟩ :: fs)

section

variable {aliases : Aliases} {names names' : Site → String → Prop} {site : Site}

/-- What stands for a type under some names stands for it under others, named accordingly. -/
theorem Lowers.rename {f : String → String} {t : SchemaType} {g : FieldType String}
    (h : Lowers aliases names site t g) (hnames : ∀ s n, names s n → names' s (f n)) :
    Lowers aliases names' site t (g.map f) := by
  induction h with
  | bool => exact .bool
  | number => exact .number
  | string => exact .string
  | generic => exact .generic
  | enum => exact .enum
  | array _ ih => exact .array ih
  | nullable _ ih => exact .nullable ih
  | object h => exact .object (hnames _ _ h)
  | named hbody _ ih => exact .named hbody ih

theorem LowersAll.rename {f : String → String} {k : Nat} {ps : List Property} {fs : List Field}
    (h : LowersAll aliases names site k ps fs) (hnames : ∀ s n, names s n → names' s (f n)) :
    LowersAll aliases names' site k ps (fs.map (Field.rename f)) := by
  induction h with
  | nil => exact .nil
  | cons head _ ih => exact .cons (head.rename hnames) ih

theorem Lowers.mono {t : SchemaType} {f : FieldType String} (h : Lowers aliases names site t f)
    (hnames : ∀ s n, names s n → names' s n) : Lowers aliases names' site t f := by
  have hid := h.rename (f := id) hnames
  rwa [FieldType.map_id] at hid

theorem LowersAll.mono {k : Nat} {ps : List Property} {fs : List Field}
    (h : LowersAll aliases names site k ps fs) (hnames : ∀ s n, names s n → names' s n) :
    LowersAll aliases names' site k ps fs := by
  have hid := h.rename (f := id) hnames
  rwa [rename_id] at hid

theorem LowersAll.get {k i : Nat} {ps : List Property} {fs : List Field} {p : Property}
    (h : LowersAll aliases names site k ps fs) (hp : ps[i]? = some p) :
    ∃ f, fs[i]? = some f ∧ Lowers aliases names (site.under (k + i)) p.type f.type := by
  induction h generalizing i with
  | nil => simp at hp
  | cons head _ ih =>
    cases i with
    | zero =>
      simp only [List.getElem?_cons_zero, Option.some.injEq] at hp
      subst hp
      exact ⟨_, rfl, head⟩
    | succ i =>
      rw [List.getElem?_cons_succ] at hp
      obtain ⟨f, hf, hlow⟩ := ih hp
      rw [Nat.add_assoc, Nat.add_comm 1 i] at hlow
      exact ⟨f, hf, hlow⟩

theorem LowersAll.names_eq {k : Nat} {ps : List Property} {fs : List Field}
    (h : LowersAll aliases names site k ps fs) : fs.map (·.name) = ps.map (·.name) := by
  induction h with
  | nil => rfl
  | cons _ _ ih => simp [ih]

/-- What stands for the type at the end of a chain stands for every name on it. -/
theorem Hops.lowers {n owner : String} {chain : List String} {t : SchemaType}
    {f : FieldType String} (h : Hops aliases n chain owner t)
    (hf : Lowers aliases names ⟨.named owner, []⟩ t f) :
    ∀ m ∈ chain, ∀ site, Lowers aliases names site (.named m) f := by
  induction h with
  | last hbody =>
    intro m hm site
    rw [List.mem_singleton.1 hm]
    exact .named hbody hf
  | hop hbody rest ih =>
    intro m hm site
    rcases List.mem_cons.1 hm with rfl | hm
    · exact .named hbody (ih hf _ rest.head_mem _)
    · exact ih hf m hm site

end

section

variable {aliases : Aliases} {methods : List Method}

/-- The one object, scalar, name or enum that is left of a type without its arrays and nulls. -/
def SchemaType.core : SchemaType → SchemaType
  | .array element => element.core
  | .nullable inner => inner.core
  | t => t

def coreAt (aliases : Aliases) (methods : List Method) (owner : Owner) :
    List Nat → Option SchemaType
  | [] =>
    match owner with
    | .slot i => (methods.flatMap Method.slots)[i]?.map (·.type.core)
    | .named n => (aliases.lookup n).map SchemaType.core
  | k :: steps =>
    match coreAt aliases methods owner steps with
    | some (.object ps) => ps[k]?.map (·.type.core)
    | _ => none

theorem Occurs.coreAt_eq {site : Site} {t : SchemaType} (h : Occurs aliases methods site t) :
    coreAt aliases methods site.owner site.steps = some t.core := by
  induction h with
  | slot hslot => simp [coreAt, hslot]
  | element _ ih => exact ih
  | inner _ ih => exact ih
  | property _ hp ih => simp only [SchemaType.core] at ih; simp [Site.under, coreAt, ih, hp]
  | definition _ hbody => simp [coreAt, hbody]

theorem Occurs.object_unique {site : Site} {ps qs : List Property}
    (hps : Occurs aliases methods site (.object ps))
    (hqs : Occurs aliases methods site (.object qs)) : ps = qs := by
  have h := hps.coreAt_eq
  rw [hqs.coreAt_eq] at h
  simpa [SchemaType.core] using h.symm

end

end SchemaStructs
