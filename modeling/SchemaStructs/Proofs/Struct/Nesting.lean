import Mathlib.Logic.Relation
import SchemaStructs.Proofs.Struct.Meaning

set_option autoImplicit false

namespace SchemaStructs

open Relation

variable {aliases : Aliases} {methods : List Method}

/-- The type at `place` stands behind a property of the object at `site`, with no object in
between. -/
inductive Holds (aliases : Aliases) (methods : List Method) (site : Site) :
    Site → SchemaType → Prop
  | property {ps : List Property} {k : Nat} {p : Property}
      (h : Occurs aliases methods site (.object ps)) (hp : ps[k]? = some p) :
      Holds aliases methods site (site.under k) p.type
  | element {place : Site} {t : SchemaType} (h : Holds aliases methods site place (.array t)) :
      Holds aliases methods site place t
  | inner {place : Site} {t : SchemaType} (h : Holds aliases methods site place (.nullable t)) :
      Holds aliases methods site place t
  | definition {place : Site} {n : String} {body : SchemaType}
      (h : Holds aliases methods site place (.named n)) (hbody : aliases.lookup n = some body) :
      Holds aliases methods site ⟨.named n, []⟩ body

/-- The object at `site` holds the object at `place`. -/
def Contains (aliases : Aliases) (methods : List Method) (site place : Site) : Prop :=
  ∃ ps, Holds aliases methods site place (.object ps)

/-- The type is part of the innermost object that is being lowered, if there is one. -/
structure Met (aliases : Aliases) (methods : List Method) (pending : List Pending) (site : Site)
    (t : SchemaType) : Prop where
  occurs : Occurs aliases methods site t
  held : ∀ p ∈ pending.head?, Holds aliases methods p.site site t

namespace Met

variable {pending : List Pending} {site : Site} {t : SchemaType}

theorem element (h : Met aliases methods pending site (.array t)) :
    Met aliases methods pending site t :=
  ⟨h.occurs.element, fun p hp => (h.held p hp).element⟩

theorem inner (h : Met aliases methods pending site (.nullable t)) :
    Met aliases methods pending site t :=
  ⟨h.occurs.inner, fun p hp => (h.held p hp).inner⟩

theorem property {ps : List Property} {base : String} {k : Nat} {p : Property}
    (h : Met aliases methods pending site (.object ps)) (hp : ps[k]? = some p) :
    Met aliases methods (⟨site, base⟩ :: pending) (site.under k) p.type :=
  ⟨h.occurs.property hp, by simpa using Holds.property h.occurs hp⟩

theorem properties {ps : List Property} {base : String}
    (h : Met aliases methods pending site (.object ps)) :
    EachProperty (Met aliases methods (⟨site, base⟩ :: pending)) site 0 ps :=
  .intro fun _ _ => h.property

theorem definition {n : String} {body : SchemaType}
    (h : Met aliases methods pending site (.named n)) (hbody : aliases.lookup n = some body) :
    Met aliases methods pending ⟨.named n, []⟩ body :=
  ⟨h.occurs.definition hbody, fun p hp => (h.held p hp).definition hbody⟩

end Met

theorem Hops.met {n owner : String} {chain : List String} {t : SchemaType} {site : Site}
    {pending : List Pending} (h : Hops aliases n chain owner t)
    (hn : Met aliases methods pending site (.named n)) :
    Met aliases methods pending ⟨.named owner, []⟩ t := by
  induction h generalizing site with
  | last hbody => exact hn.definition hbody
  | hop hbody _ ih => exact ih (hn.definition hbody)

theorem Holds.occurs {site place : Site} {t : SchemaType}
    (h : Holds aliases methods site place t) : Occurs aliases methods place t := by
  induction h with
  | property h hp => exact h.property hp
  | element _ ih => exact ih.element
  | inner _ ih => exact ih.inner
  | definition _ hbody ih => exact ih.definition hbody

section

variable {names : Site → String → Prop} {site : Site}

/-- A field type refers to the struct of an object that is held. -/
theorem Lowers.exists_held {place : Site} {t : SchemaType} {f : FieldType String} {n : String}
    (h : Lowers aliases names place t f) (href : f.ref? = some n)
    (hheld : Holds aliases methods site place t) :
    ∃ inner, names inner n ∧ Contains aliases methods site inner := by
  induction h with
  | array _ ih => exact ih href hheld.element
  | nullable _ ih => exact ih href hheld.inner
  | named hbody _ ih => exact ih href (hheld.definition hbody)
  | @object place ps name hname =>
    rw [FieldType.ref?, Option.some.injEq] at href
    exact ⟨place, href ▸ hname, ps, hheld⟩
  | _ => simp [FieldType.ref?] at href

theorem LowersAll.exists_held {i k : Nat} {ps : List Property} {fs : List Field} {n : String}
    (h : LowersAll aliases names site i ps fs) (hk : refAt fs k = some n)
    (hheld : EachProperty (Holds aliases methods site) site i ps) :
    ∃ inner, names inner n ∧ Contains aliases methods site inner := by
  induction h generalizing k with
  | nil => simp [refAt] at hk
  | @cons i _ _ _ _ _ _ head _ ih =>
    cases k with
    | zero => exact head.exists_held (by simpa [refAt] using hk) hheld.head
    | succ k => exact ih (by simpa [refAt] using hk) hheld.tail

/-- What is held has been lowered along with the object that holds it. -/
theorem Holds.exists_field {place : Site} {t : SchemaType} {ps : List Property}
    {fields : List Field} (h : Holds aliases methods site place t)
    (hocc : Occurs aliases methods site (.object ps))
    (hall : LowersAll aliases names site 0 ps fields) :
    ∃ k g, refAt fields k = g.ref? ∧ Lowers aliases names place t g := by
  induction h with
  | @property _ k _ hobject hp =>
    rw [hobject.object_unique hocc] at hp
    obtain ⟨f, hf, hlow⟩ := hall.get hp
    rw [Nat.zero_add] at hlow
    exact ⟨k, f.type, by simp [refAt, hf], hlow⟩
  | element _ ih =>
    obtain ⟨k, _, href, hlow⟩ := ih
    cases hlow with
    | array hlow => exact ⟨k, _, by rw [href, FieldType.ref?], hlow⟩
  | inner _ ih =>
    obtain ⟨k, _, href, hlow⟩ := ih
    cases hlow with
    | nullable hlow => exact ⟨k, _, by rw [href, FieldType.ref?], hlow⟩
  | definition _ hbody ih =>
    obtain ⟨k, _, href, hlow⟩ := ih
    cases hlow with
    | named hbody' hlow =>
      rw [hbody, Option.some.injEq] at hbody'
      exact ⟨k, _, href, hbody' ▸ hlow⟩

theorem Contains.exists_ref {place : Site} {ps : List Property} {fields : List Field}
    (h : Contains aliases methods site place) (hocc : Occurs aliases methods site (.object ps))
    (hall : LowersAll aliases names site 0 ps fields) :
    ∃ k n, refAt fields k = some n ∧ names place n := by
  obtain ⟨_, hheld⟩ := h
  obtain ⟨k, _, href, hlow⟩ := hheld.exists_field hocc hall
  cases hlow with
  | object hname => exact ⟨k, _, href, hname⟩

end

/-- Each object that is being lowered lies within those that have been entered before it. -/
def Nested (aliases : Aliases) (methods : List Method) (pending : List Pending) : Prop :=
  pending.Pairwise fun inner outer => TransGen (Contains aliases methods) outer.site inner.site

theorem Nested.enter {pending : List Pending} {site : Site} {base : String} {ps : List Property}
    (h : Nested aliases methods pending) (met : Met aliases methods pending site (.object ps)) :
    Nested aliases methods (⟨site, base⟩ :: pending) := by
  refine List.pairwise_cons.2 ⟨?_, h⟩
  cases pending with
  | nil => simp
  | cons top pending =>
    have htop : Contains aliases methods top.site site := ⟨ps, met.held top rfl⟩
    obtain ⟨houter, -⟩ := List.pairwise_cons.1 h
    rw [List.forall_mem_cons]
    exact ⟨.single htop, fun p hp => (houter p hp).tail htop⟩

end SchemaStructs
