import SchemaStructs.Proofs.Struct.Step

set_option autoImplicit false

namespace SchemaStructs

open Relation

variable {moduleName : String} {aliases : Aliases} {methods : List Method}
  {pending : List Pending} {s s' : Collected}

theorem Lowering.reserve_names {p : Pending} {name n : String} {k : Site}
    (run : (reserve p).run s = .ok (name, s')) (hn : s.Names k n) : s'.Names k n := by
  rcases reserve_ok run with ⟨-, rfl⟩ | ⟨hnone, -, -, rfl⟩
  · exact hn
  · rcases hn with hn | hn
    · exact .inl hn
    · have hk : k ≠ p.site := by
        rintro rfl
        simp [hnone] at hn
      exact .inr (by rw [lookup_cons_ne hk, hn])

namespace Booked

theorem enter {site : Site} {base : String} (h : Booked pending s)
    (fresh : site ∉ pending.map (·.site)) (unlowered : s.lowered.lookup site = none) :
    Booked (⟨site, base⟩ :: pending) s where
  taken := h.taken
  distinct := h.distinct
  shapes := h.shapes
  sites := List.nodup_cons.2 ⟨fresh, h.sites⟩
  reservedSites := h.reservedSites
  reservedPending := fun k hk => List.mem_cons_of_mem _ (h.reservedPending k hk)
  unlowered := fun k hk => by
    rcases List.mem_cons.1 hk with rfl | hk
    · exact unlowered
    · exact h.unlowered k hk

theorem reserve {p : Pending} {name : String} (h : Booked pending s) (mem : p ∈ pending)
    (run : (Lowering.reserve p).run s = .ok (name, s')) : Booked pending s' := by
  obtain ⟨htaken, hdistinct, hshapes⟩ := h.balanced.reserve run
  rw [List.append_nil] at htaken
  rcases Lowering.reserve_ok run with ⟨-, rfl⟩ | ⟨hnone, -, -, rfl⟩
  · exact h
  · refine ⟨htaken, hdistinct, hshapes, h.sites, ?_, ?_, h.unlowered⟩
    · exact List.nodup_cons.2 ⟨lookup_eq_none_iff_notMem.1 hnone, h.reservedSites⟩
    · intro k hk
      rcases List.mem_cons.1 hk with rfl | hk
      · exact List.mem_map_of_mem mem
      · exact h.reservedPending k hk

theorem settle {site : Site} {base name : String} {origin : Origin} {fields : List Field}
    (h : Booked (⟨site, base⟩ :: pending) s)
    (run : (Lowering.settle site base origin fields).run s = .ok (name, s')) :
    Booked pending s' := by
  have hs := h.settles run
  obtain ⟨hsite, hsites⟩ := List.nodup_cons.1 h.sites
  obtain ⟨htaken, hdistinct, hshapes⟩ := h.balanced.settle h.reservedSites run
  rw [List.append_nil] at htaken
  refine ⟨htaken, hdistinct, hshapes, hsites, ?_, ?_, ?_⟩
  · rw [hs.reserved]
    exact (List.filter_sublist.map _).nodup h.reservedSites
  · intro k hk
    rw [hs.reserved] at hk
    obtain ⟨hk, hne⟩ := Lowering.mem_released.1 hk
    exact List.mem_of_ne_of_mem hne (h.reservedPending k hk)
  · intro k hk
    have hne : k ≠ site := fun heq => hsite (heq ▸ hk)
    rw [hs.lowered, lookup_cons_ne hne]
    exact h.unlowered k (List.mem_cons_of_mem _ hk)

end Booked

namespace Faithful

/-- What stands for an object still does when more names are known and no struct is gone. -/
theorem grow (h : Faithful aliases methods s) (hlowered : s'.lowered = s.lowered)
    (hstructs : s'.structs = s.structs) (hnamed : s'.named = s.named)
    (hnames : ∀ k n, s.Names k n → s'.Names k n) : Faithful aliases methods s' where
  lowered := fun k n hk => by
    rw [hlowered] at hk
    obtain ⟨ps, hocc, t, ht, hname, hall⟩ := h.lowered k n hk
    exact ⟨ps, hocc, t, hstructs ▸ ht, hname, hall.mono hnames⟩
  met := fun t ht => by
    rw [hlowered]
    exact h.met t (hstructs ▸ ht)
  named := fun e he => by
    obtain ⟨hdone, hall⟩ := h.named e (hnamed ▸ he)
    exact ⟨by rwa [hlowered], fun place => (hall place).mono hnames⟩

theorem reserve {p : Pending} {name : String} (h : Faithful aliases methods s)
    (run : (Lowering.reserve p).run s = .ok (name, s')) : Faithful aliases methods s' := by
  have hnames : ∀ k n, s.Names k n → s'.Names k n := fun _ _ => Lowering.reserve_names run
  rcases Lowering.reserve_ok run with ⟨-, rfl⟩ | ⟨-, -, -, rfl⟩ <;> exact h.grow rfl rfl rfl hnames

theorem settle {site : Site} {name : String} {ps : List Property} {fields : List Field}
    (h : Faithful aliases methods s) (hs : Settles site name fields s s')
    (hun : s.lowered.lookup site = none) (occurs : Occurs aliases methods site (.object ps))
    (lowers : LowersAll aliases s.Names site 0 ps fields) : Faithful aliases methods s' := by
  have hnames : ∀ k n, s.Names k n → s'.Names k n := fun _ _ => hs.names_mono hun
  have hkeep : ∀ k n, s.lowered.lookup k = some n → s'.lowered.lookup k = some n := by
    intro k n hk
    have hne : k ≠ site := by
      rintro rfl
      simp [hun] at hk
    rw [hs.lowered, lookup_cons_ne hne, hk]
  refine ⟨fun k n hk => ?_, fun t ht => ?_, fun e he => ?_⟩
  · by_cases hsite : k = site
    · subst hsite
      rw [hs.lowered, List.lookup_cons_self, Option.some.injEq] at hk
      obtain ⟨t, ht, hname, hfields⟩ := hs.struct
      exact ⟨ps, occurs, t, ht, hname.trans hk, hfields ▸ lowers.mono hnames⟩
    · rw [hs.lowered, lookup_cons_ne hsite] at hk
      obtain ⟨qs, hocc, t, ht, hname, hall⟩ := h.lowered k n hk
      exact ⟨qs, hocc, t, hs.kept t ht, hname, hall.mono hnames⟩
  · rcases hs.met t ht with ht | rfl
    · obtain ⟨k, hk⟩ := h.met t ht
      exact ⟨k, hkeep k _ hk⟩
    · exact ⟨site, by rw [hs.lowered, List.lookup_cons_self]⟩
  · rw [hs.named] at he
    obtain ⟨⟨k, hk⟩, hall⟩ := h.named e he
    exact ⟨⟨k, hkeep k _ hk⟩, fun place => (hall place).mono hnames⟩

theorem record {site : Site} {names : List String} {name : String}
    (h : Faithful aliases methods s) (settled : s.lowered.lookup site = some name)
    (lowers : ∀ n ∈ names, ∀ place, Lowers aliases s.Names place (.named n) (.struct name)) :
    Faithful aliases methods { s with named := names.map (·, name) ++ s.named } := by
  refine ⟨h.lowered, h.met, fun e he => ?_⟩
  rcases List.mem_append.1 he with he | he
  · obtain ⟨n, hn, rfl⟩ := List.mem_map.1 he
    exact ⟨⟨site, settled⟩, lowers n hn⟩
  · exact h.named e he

end Faithful

theorem Invariant.initial : Invariant aliases methods ([], {}) where
  booked := ⟨.refl _, .nil, fun _ => rfl, .nil, .nil, by simp, by simp⟩
  faithful := ⟨by simp, by simp, by simp⟩

theorem Step.invariant {c c' : List Pending × Collected} (h : Step moduleName aliases methods c c')
    (hi : Invariant aliases methods c) : Invariant aliases methods c' := by
  obtain ⟨hb, hf⟩ := hi
  cases h with
  | enter _ _ fresh unlowered => exact ⟨hb.enter fresh unlowered, hf⟩
  | reserve mem run => exact ⟨hb.reserve mem run, hf.reserve run⟩
  | settle occurs _ _ lowers run =>
    have hun := hb.unlowered _ List.mem_cons_self
    exact ⟨hb.settle run, hf.settle (hb.settles run) hun occurs lowers⟩
  | record settled lowers => exact ⟨{ hb with }, hf.record settled lowers⟩

theorem Step.names {c c' : List Pending × Collected} (h : Step moduleName aliases methods c c')
    (hi : Invariant aliases methods c) {k : Site} {n : String} (hn : c.2.Names k n) :
    c'.2.Names k n := by
  cases h with
  | enter => exact hn
  | reserve _ run => exact Lowering.reserve_names run hn
  | settle _ _ _ _ run =>
    exact (hi.booked.settles run).names_mono (hi.booked.unlowered _ List.mem_cons_self) hn
  | record => exact hn

theorem Steps.invariant {c c' : List Pending × Collected}
    (h : Steps moduleName aliases methods c c') (hi : Invariant aliases methods c) :
    Invariant aliases methods c' := by
  induction h with
  | refl => exact hi
  | tail _ hstep ih => exact hstep.invariant ih

theorem Steps.names {c c' : List Pending × Collected} (h : Steps moduleName aliases methods c c')
    (hi : Invariant aliases methods c) {k : Site} {n : String} (hn : c.2.Names k n) :
    c'.2.Names k n := by
  induction h with
  | refl => exact hn
  | tail hsteps hstep ih => exact hstep.names (Steps.invariant hsteps hi) ih

end SchemaStructs
