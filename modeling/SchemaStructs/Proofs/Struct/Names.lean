import SchemaStructs.Proofs.Struct.Slots
import SchemaStructs.Proofs.Merge.Merged

set_option autoImplicit false

namespace SchemaStructs

variable {moduleName : String} {aliases : Aliases} {methods : List Method}

structure Struct.WellNamed (moduleName : String) (t : Struct) : Prop where
  candidate : t.name ∈ Naming.candidates (t.origin.base moduleName) Naming.maxNumber
  distinct : (t.fields.map (·.name)).Nodup

structure Named (moduleName : String) (c : List Pending × Collected) : Prop where
  structs : ∀ t ∈ c.2.structs, t.WellNamed moduleName
  reserved : ∀ p ∈ c.1, ∀ name, c.2.reserved.lookup p.site = some name →
    name ∈ Naming.candidates p.base Naming.maxNumber

section

variable {pending : List Pending} {s s' : Collected}

theorem Named.reserve {p : Pending} {name : String} (h : Named moduleName (pending, s))
    (hsites : (pending.map (·.site)).Nodup) (mem : p ∈ pending)
    (run : (Lowering.reserve p).run s = .ok (name, s')) : Named moduleName (pending, s') := by
  rcases Lowering.reserve_ok run with ⟨-, rfl⟩ | ⟨-, hcandidate, -, rfl⟩
  · exact h
  · refine ⟨h.structs, fun q hq n hn => ?_⟩
    by_cases hsite : q.site = p.site
    · have hqp : q = p := List.inj_on_of_nodup_map hsites hq mem hsite
      subst hqp
      rw [List.lookup_cons_self, Option.some.injEq] at hn
      exact hn ▸ hcandidate
    · rw [lookup_cons_ne hsite] at hn
      exact h.reserved q hq n hn

theorem Named.settle {site : Site} {name : String} {origin : Origin} {fields : List Field}
    (h : Named moduleName (⟨site, origin.base moduleName⟩ :: pending, s))
    (hsites : site ∉ pending.map (·.site)) (hfields : (fields.map (·.name)).Nodup)
    (run : (Lowering.settle site (origin.base moduleName) origin fields).run s = .ok (name, s')) :
    Named moduleName (pending, s') := by
  have hreserved : ∀ p ∈ pending, ∀ n,
      (s.reserved.filter (·.1 != site)).lookup p.site = some n →
        n ∈ Naming.candidates p.base Naming.maxNumber := by
    intro p hp n hn
    have hne : p.site ≠ site := fun heq => hsites (heq ▸ List.mem_map_of_mem hp)
    rw [lookup_filter_ne hne] at hn
    exact h.reserved p (List.mem_cons_of_mem _ hp) n hn
  have hadd : name ∈ Naming.candidates (origin.base moduleName) Naming.maxNumber →
      ∀ t ∈ s.structs ++ [⟨name, fields, origin⟩], t.WellNamed moduleName := by
    intro hcandidate t ht
    rcases List.mem_append.1 ht with ht | ht
    · exact h.structs t ht
    · rw [List.mem_singleton.1 ht]
      exact ⟨hcandidate, hfields⟩
  rcases Lowering.settle_ok run with ⟨hheld, rfl⟩ | ⟨-, -, rfl⟩ | ⟨-, -, hcandidate, -, rfl⟩
  · exact ⟨hadd (h.reserved _ List.mem_cons_self name hheld), hreserved⟩
  · exact ⟨h.structs, hreserved⟩
  · exact ⟨hadd hcandidate, hreserved⟩

end

theorem Step.named {c c' : List Pending × Collected} (h : Step moduleName aliases methods c c')
    (hi : Invariant aliases methods c) (hn : Named moduleName c) : Named moduleName c' := by
  cases h with
  | enter _ _ fresh =>
    refine ⟨hn.structs, fun p hp name hname => ?_⟩
    rcases List.mem_cons.1 hp with rfl | hp
    · exact absurd (hi.booked.reservedPending _ (mem_keys_of_lookup hname)) fresh
    · exact hn.reserved p hp name hname
  | reserve mem run => exact hn.reserve hi.booked.sites mem run
  | settle _ _ distinct lowers run =>
    exact hn.settle (List.nodup_cons.1 hi.booked.sites).1 (lowers.names_eq ▸ distinct) run
  | record => exact ⟨hn.structs, hn.reserved⟩

theorem Steps.named {c : List Pending × Collected}
    (h : Steps moduleName aliases methods ([], {}) c) : Named moduleName c := by
  induction h with
  | refl => exact ⟨by simp, by simp⟩
  | tail hsteps hstep ih => exact hstep.named (Steps.invariant hsteps .initial) ih

theorem wellNamed_of_collect {structs : List Struct}
    (h : collect moduleName aliases methods = .ok structs) :
    ∀ t ∈ structs, t.WellNamed moduleName := by
  obtain ⟨s, hsteps, -, rfl⟩ := exists_steps h
  intro t ht
  obtain ⟨u, hu, rfl⟩ := List.mem_map.1 ht
  obtain ⟨hcandidate, hdistinct⟩ := (Steps.named hsteps).structs u (List.mem_of_mem_filter hu)
  refine ⟨hcandidate, ?_⟩
  rw [Classes.signature, List.map_map]
  exact hdistinct

end SchemaStructs
