import SchemaStructs.Proofs.Struct.Balance
import SchemaStructs.Proofs.Struct.Nesting

/-!
Lowering as a sequence of steps. An object is entered, its name may be reserved while it is being
lowered, and it is settled when its fields are known. Whatever holds of what has been collected
is kept by every step.
-/

set_option autoImplicit false

namespace SchemaStructs

open Relation

/-- The struct of the object at the site is or will be called `name`. -/
def Collected.Names (s : Collected) (site : Site) (name : String) : Prop :=
  s.lowered.lookup site = some name ∨ s.reserved.lookup site = some name

/-- An object is called after the alias that is defined as it, or after a path. -/
inductive Origin.Suits (aliases : Aliases) (ps : List Property) : Site → Origin → Prop
  | named {n : String} (body : aliases.lookup n = some (.object ps)) :
      Suits aliases ps ⟨.named n, []⟩ (.named n)
  | path (site : Site) (segments : List String) : Suits aliases ps site (.path segments)

/-- The steps of lowering, each from the objects being lowered and what has been collected to the
same after the step. -/
inductive Step (moduleName : String) (aliases : Aliases) (methods : List Method) :
    List Pending × Collected → List Pending × Collected → Prop
  | enter {pending : List Pending} {s : Collected} {site : Site} {origin : Origin}
      {ps : List Property} (met : Met aliases methods pending site (.object ps))
      (suits : origin.Suits aliases ps site) (fresh : site ∉ pending.map (·.site))
      (unlowered : s.lowered.lookup site = none) :
      Step moduleName aliases methods (pending, s) (⟨site, origin.base moduleName⟩ :: pending, s)
  | reserve {pending : List Pending} {s s' : Collected} {p : Pending} {name : String}
      (mem : p ∈ pending) (run : (Lowering.reserve p).run s = .ok (name, s')) :
      Step moduleName aliases methods (pending, s) (pending, s')
  | settle {pending : List Pending} {s s' : Collected} {site : Site} {name : String}
      {origin : Origin} {ps : List Property} {fields : List Field}
      (occurs : Occurs aliases methods site (.object ps))
      (suits : origin.Suits aliases ps site) (distinct : (ps.map (·.name)).Nodup)
      (lowers : LowersAll aliases s.Names site 0 ps fields)
      (run : (Lowering.settle site (origin.base moduleName) origin fields).run s = .ok (name, s')) :
      Step moduleName aliases methods (⟨site, origin.base moduleName⟩ :: pending, s) (pending, s')
  | record {pending : List Pending} {s : Collected} {site : Site} {names : List String}
      {name : String} (settled : s.lowered.lookup site = some name)
      (lowers : ∀ n ∈ names, ∀ place, Lowers aliases s.Names place (.named n) (.struct name)) :
      Step moduleName aliases methods (pending, s)
        (pending, { s with named := names.map (·, name) ++ s.named })

abbrev Steps (moduleName : String) (aliases : Aliases) (methods : List Method) :
    List Pending × Collected → List Pending × Collected → Prop :=
  ReflTransGen (Step moduleName aliases methods)

/-- The books are in order: every name in use is taken once, and no object is both done and being
lowered. -/
structure Booked (pending : List Pending) (s : Collected) : Prop where
  taken : s.taken.Perm (s.structs.map (·.name) ++ s.reserved.map (·.2))
  distinct : s.taken.Nodup
  shapes : ∀ fields, s.shapes.lookup fields = (s.structs.find? (·.fields == fields)).map (·.name)
  sites : (pending.map (·.site)).Nodup
  reservedSites : (s.reserved.map (·.1)).Nodup
  reservedPending : ∀ site ∈ s.reserved.map (·.1), site ∈ pending.map (·.site)
  unlowered : ∀ site ∈ pending.map (·.site), s.lowered.lookup site = none

/-- Every object that is done has a struct that stands for it, and every struct such an object. -/
structure Faithful (aliases : Aliases) (methods : List Method) (s : Collected) : Prop where
  lowered : ∀ site name, s.lowered.lookup site = some name →
    ∃ ps, Occurs aliases methods site (.object ps) ∧
      ∃ t ∈ s.structs, t.name = name ∧ LowersAll aliases s.Names site 0 ps t.fields
  met : ∀ t ∈ s.structs, ∃ site, s.lowered.lookup site = some t.name
  named : ∀ e ∈ s.named, (∃ site, s.lowered.lookup site = some e.2) ∧
    ∀ place, Lowers aliases s.Names place (.named e.1) (.struct e.2)

structure Invariant (aliases : Aliases) (methods : List Method) (c : List Pending × Collected) :
    Prop where
  booked : Booked c.1 c.2
  faithful : Faithful aliases methods c.2

structure Settles (site : Site) (name : String) (fields : List Field) (s s' : Collected) :
    Prop where
  lowered : s'.lowered = (site, name) :: s.lowered
  reserved : s'.reserved = s.reserved.filter (·.1 != site)
  named : s'.named = s.named
  held : ∀ n, s.reserved.lookup site = some n → n = name
  kept : ∀ t ∈ s.structs, t ∈ s'.structs
  struct : ∃ t ∈ s'.structs, t.name = name ∧ t.fields = fields
  met : ∀ t ∈ s'.structs, t ∈ s.structs ∨ t.name = name

section

variable {pending : List Pending} {s s' : Collected} {site : Site} {base name : String}
  {origin : Origin} {fields : List Field}

theorem Booked.balanced (h : Booked pending s) : Balanced [] s :=
  ⟨by simpa using h.taken, h.distinct, h.shapes⟩

theorem Booked.settles (h : Booked pending s)
    (run : (Lowering.settle site base origin fields).run s = .ok (name, s')) :
    Settles site name fields s s' := by
  rcases Lowering.settle_ok run with ⟨hheld, rfl⟩ | ⟨hnone, hshape, rfl⟩ | ⟨hnone, -, -, -, rfl⟩
  · refine ⟨rfl, rfl, rfl, fun n hn => by simpa [hheld] using hn.symm, ?_, ?_, ?_⟩ <;>
      simp only [Collected.add, Lowering.released, List.mem_append, List.mem_singleton]
    · exact fun t ht => .inl ht
    · exact ⟨_, .inr rfl, rfl, rfl⟩
    · exact fun t ht => ht.imp_right fun heq => by rw [heq]
  · exact ⟨rfl, rfl, rfl, fun n hn => by simp [hnone] at hn, fun t ht => ht,
      h.balanced.exists_struct hshape, fun t ht => .inl ht⟩
  · refine ⟨rfl, rfl, rfl, fun n hn => by simp [hnone] at hn, ?_, ?_, ?_⟩ <;>
      simp only [Collected.add, Lowering.released, List.mem_append, List.mem_singleton]
    · exact fun t ht => .inl ht
    · exact ⟨_, .inr rfl, rfl, rfl⟩
    · exact fun t ht => ht.imp_right fun heq => by rw [heq]

theorem Settles.names (h : Settles site name fields s s') : s'.Names site name := by
  refine .inl ?_
  rw [h.lowered, List.lookup_cons_self]

theorem Settles.names_mono (h : Settles site name fields s s')
    (hun : s.lowered.lookup site = none) {k : Site} {n : String} (hn : s.Names k n) :
    s'.Names k n := by
  by_cases hk : k = site
  · subst hk
    rcases hn with hn | hn
    · simp [hun] at hn
    · rw [h.held n hn]
      exact h.names
  · rcases hn with hn | hn
    · exact .inl (by rw [h.lowered, lookup_cons_ne hk, hn])
    · exact .inr (by rw [h.reserved, lookup_filter_ne hk, hn])

end

end SchemaStructs
