import SchemaStructs.Proofs.Alias.Graph
import SchemaStructs.Proofs.Struct.Nesting

set_option autoImplicit false

namespace SchemaStructs

open Relation

variable {aliases : Aliases} {methods : List Method}

/-- The methods reach an alias that leads back to itself. -/
def Recursive (aliases : Aliases) (methods : List Method) : Prop :=
  ∃ slot ∈ methods.flatMap Method.slots, ∃ n,
    Reaches aliases Reference.any slot.type n ∧ OnCycle aliases Reference.any n

def Owner.type? (aliases : Aliases) (methods : List Method) : Owner → Option SchemaType
  | .slot i => (methods.flatMap Method.slots)[i]?.map (·.type)
  | .named n => aliases.lookup n

def Owner.Mentions (aliases : Aliases) (methods : List Method) (owner : Owner) (n : String) :
    Prop :=
  ∃ t, owner.type? aliases methods = some t ∧ Reaches aliases Reference.any t n

theorem Owner.Mentions.trans {owner : Owner} {m n : String}
    (h : owner.Mentions aliases methods m) (hn : (Owner.named m).Mentions aliases methods n) :
    owner.Mentions aliases methods n := by
  obtain ⟨t, ht, hm⟩ := h
  obtain ⟨body, hbody, hn⟩ := hn
  exact ⟨t, ht, hm.trans hbody hn⟩

/-- The names in a type are names in the whole type that it lies in. -/
theorem Occurs.targets {site : Site} {t : SchemaType} (h : Occurs aliases methods site t) :
    ∃ whole, site.owner.type? aliases methods = some whole ∧
      ∀ n ∈ t.targets, n ∈ whole.targets := by
  induction h with
  | slot hslot => exact ⟨_, by simp [Owner.type?, hslot], fun _ hn => hn⟩
  | definition _ hbody => exact ⟨_, hbody, fun _ hn => hn⟩
  | element _ ih =>
    obtain ⟨whole, hwhole, hsub⟩ := ih
    exact ⟨whole, hwhole, by simpa using hsub⟩
  | inner _ ih =>
    obtain ⟨whole, hwhole, hsub⟩ := ih
    exact ⟨whole, hwhole, by simpa using hsub⟩
  | property _ hp ih =>
    obtain ⟨whole, hwhole, hsub⟩ := ih
    rw [targets_object] at hsub
    exact ⟨whole, hwhole, fun n hn =>
      hsub n (List.mem_flatMap_of_mem (List.mem_of_getElem? hp) hn)⟩

theorem Occurs.mentions {site : Site} {n : String} (h : Occurs aliases methods site (.named n)) :
    site.owner.Mentions aliases methods n := by
  obtain ⟨whole, hwhole, hsub⟩ := h.targets
  exact ⟨whole, hwhole, n, hsub n (List.mem_singleton.2 rfl), .refl⟩

theorem Occurs.reaches_owner {site : Site} {t : SchemaType} (h : Occurs aliases methods site t)
    {n : String} (hn : site.owner = .named n) :
    ∃ slot ∈ methods.flatMap Method.slots, Reaches aliases Reference.any slot.type n := by
  induction h generalizing n with
  | slot => cases hn
  | element _ ih | inner _ ih => exact ih hn
  | property _ _ ih => exact ih hn
  | @definition site m body hm hbody ih =>
    cases hn
    obtain ⟨whole, hwhole, hreach⟩ := hm.mentions
    cases howner : site.owner with
    | slot i =>
      rw [howner, Owner.type?, Option.map_eq_some_iff] at hwhole
      obtain ⟨slot, hslot, rfl⟩ := hwhole
      exact ⟨slot, List.mem_of_getElem? hslot, hreach⟩
    | named n =>
      rw [howner] at hwhole
      obtain ⟨slot, hslot, hn⟩ := ih howner
      exact ⟨slot, hslot, hn.trans hwhole hreach⟩

/-- Deeper in the same type, or in an alias that the type leads to. -/
def Beyond (aliases : Aliases) (methods : List Method) (site place : Site) : Prop :=
  (place.owner = site.owner ∧ site.steps.length < place.steps.length) ∨
    ∃ n, place.owner = .named n ∧ site.owner.Mentions aliases methods n

theorem Beyond.trans {a b c : Site} (hab : Beyond aliases methods a b)
    (hbc : Beyond aliases methods b c) : Beyond aliases methods a c := by
  rcases hbc with ⟨howner, hlt⟩ | ⟨n, howner, hn⟩
  · rcases hab with ⟨howner', hlt'⟩ | ⟨m, howner', hm⟩
    · exact .inl ⟨howner.trans howner', Nat.lt_trans hlt' hlt⟩
    · exact .inr ⟨m, howner.trans howner', hm⟩
  · rcases hab with ⟨howner', -⟩ | ⟨m, howner', hm⟩
    · exact .inr ⟨n, howner, howner' ▸ hn⟩
    · rw [howner'] at hn
      exact .inr ⟨n, howner, hm.trans hn⟩

theorem Holds.beyond {site place : Site} {t : SchemaType}
    (h : Holds aliases methods site place t) : Beyond aliases methods site place := by
  induction h with
  | property => exact .inl ⟨rfl, by simp [Site.under]⟩
  | element _ ih | inner _ ih => exact ih
  | @definition place n body h hbody ih =>
    exact ih.trans (.inr ⟨n, rfl, h.occurs.mentions⟩)

theorem recursive_of_circle {site : Site}
    (h : TransGen (Contains aliases methods) site site) : Recursive aliases methods := by
  have hbeyond : ∀ {place : Site}, TransGen (Contains aliases methods) site place →
      Beyond aliases methods site place := by
    intro place path
    induction path with
    | single h => exact h.choose_spec.beyond
    | tail _ h ih => exact ih.trans h.choose_spec.beyond
  obtain ⟨ps, hheld⟩ : ∃ ps, Occurs aliases methods site (.object ps) := by
    obtain ⟨place, -, ps, hheld⟩ := TransGen.tail'_iff.1 h
    exact ⟨ps, hheld.occurs⟩
  rcases hbeyond h with ⟨-, hlt⟩ | ⟨n, howner, body, hbody, root, hroot, path⟩
  · exact absurd hlt (Nat.lt_irrefl _)
  · obtain ⟨slot, hslot, hreach⟩ := hheld.reaches_owner howner
    rw [howner] at hbody
    obtain ⟨r, hr, rfl⟩ := SchemaType.mem_targets.1 hroot
    exact ⟨slot, hslot, n, hreach, .head' ⟨body, hbody, r, hr, rfl, rfl⟩ path⟩

end SchemaStructs
