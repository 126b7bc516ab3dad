import SchemaStructs.Proofs.Merge.Merged
import SchemaStructs.Proofs.Struct.Slots

set_option autoImplicit false

namespace SchemaStructs

variable {aliases : Aliases} {methods : List Method}

/-- Under `σ` every object that the methods reach has a struct whose fields stand for its
properties, and no struct is there for anything else. -/
structure Represents (aliases : Aliases) (methods : List Method) (structs : List Struct)
    (σ : Site → Struct) : Prop where
  struct : ∀ site ps, Occurs aliases methods site (.object ps) →
    σ site ∈ structs ∧
      LowersAll aliases (fun place name => (σ place).name = name) site 0 ps (σ site).fields
  onto : ∀ s ∈ structs, ∃ site ps, Occurs aliases methods site (.object ps) ∧ σ site = s

namespace Complete

variable {s : Collected}

theorem lowered_of_names (h : Complete aliases methods s) {site : Site} {name : String}
    (hname : s.Names site name) : s.lowered.lookup site = some name := by
  rcases hname with hdone | hheld
  · exact hdone
  · have hpending := h.invariant.booked.reservedPending site (mem_keys_of_lookup hheld)
    simp at hpending

theorem distinct (h : Complete aliases methods s) : (s.structs.map (·.name)).Nodup :=
  h.invariant.booked.balanced.distinct_structs

theorem struct_of_names (h : Complete aliases methods s) {site : Site} {name : String}
    (hname : s.Names site name) : ∃ ps, Occurs aliases methods site (.object ps) ∧
      ∃ t ∈ s.structs, t.name = name ∧ LowersAll aliases s.Names site 0 ps t.fields :=
  h.invariant.faithful.lowered site name (h.lowered_of_names hname)

theorem exists_lowers (h : Complete aliases methods s) {site : Site} {t : SchemaType}
    (hocc : Occurs aliases methods site t) : ∃ f, Lowers aliases s.Names site t f := by
  -- A part of a type is reached through the whole, so the derivation for the whole is taken apart.
  induction hocc with
  | slot hslot hvalue => exact h.slots _ _ hslot hvalue
  | element _ ih =>
    obtain ⟨_, hf⟩ := ih
    cases hf with
    | array hf => exact ⟨_, hf⟩
  | inner _ ih =>
    obtain ⟨_, hf⟩ := ih
    cases hf with
    | nullable hf => exact ⟨_, hf⟩
  | property hobject hp ih =>
    obtain ⟨_, hf⟩ := ih
    cases hf with
    | object hname =>
      obtain ⟨qs, hocc, t, -, -, hall⟩ := h.struct_of_names hname
      rw [hocc.object_unique hobject] at hall
      obtain ⟨f, -, hlow⟩ := hall.get hp
      exact ⟨f.type, by simpa using hlow⟩
  | definition _ hbody ih =>
    obtain ⟨_, hf⟩ := ih
    cases hf with
    | named hbody' hf =>
      rw [hbody, Option.some.injEq] at hbody'
      rw [hbody']
      exact ⟨_, hf⟩

theorem linked (h : Complete aliases methods s) : Linked s.structs where
  distinct := h.distinct
  closed := by
    intro t ht k name hk
    obtain ⟨site, hdone⟩ := h.invariant.faithful.met t ht
    obtain ⟨_, hocc, u, hu, hname, hall⟩ := h.struct_of_names (.inl hdone)
    rw [List.inj_on_of_nodup_map h.distinct hu ht hname] at hall
    obtain ⟨place, hplace, -⟩ := hall.exists_held hk (.intro fun _ _ => .property hocc)
    obtain ⟨_, _, v, hv, rfl, -⟩ := h.struct_of_names hplace
    exact List.mem_map_of_mem hv

theorem exists_represents (h : Complete aliases methods s) :
    ∃ σ, Represents aliases methods s.structs σ := by
  let σ : Site → Struct := fun site =>
    ((s.lowered.lookup site).bind (structNamed s.structs)).getD ⟨"", [], .path []⟩
  have hσ : ∀ site, ∀ t ∈ s.structs, s.lowered.lookup site = some t.name → σ site = t := by
    intro site t ht hdone
    simp only [σ, hdone, Option.bind_some, h.linked.structNamed_eq ht, Option.getD_some]
  have hnames : ∀ site name, s.Names site name → (σ site).name = name := by
    intro site name hname
    obtain ⟨_, _, t, ht, rfl, -⟩ := h.struct_of_names hname
    rw [hσ site t ht (h.lowered_of_names hname)]
  refine ⟨σ, fun site ps hocc => ?_, fun t ht => ?_⟩
  · obtain ⟨_, hlow⟩ := h.exists_lowers hocc
    cases hlow with
    | object hname =>
      obtain ⟨qs, hocc', t, ht, rfl, hall⟩ := h.struct_of_names hname
      rw [hocc'.object_unique hocc] at hall
      rw [hσ site t ht (h.lowered_of_names hname)]
      exact ⟨ht, hall.mono hnames⟩
  · obtain ⟨site, hdone⟩ := h.invariant.faithful.met t ht
    obtain ⟨ps, hocc, -⟩ := h.struct_of_names (.inl hdone)
    exact ⟨site, ps, hocc, hσ site t ht hdone⟩

end Complete

theorem Represents.merge {structs : List Struct} {σ : Site → Struct}
    (h : Represents aliases methods structs σ) (hlinked : Linked structs) :
    Represents aliases methods (mergeEquivalent structs) fun site => keeper structs (σ site) where
  struct := by
    intro site ps hocc
    obtain ⟨hmem, hall⟩ := h.struct site ps hocc
    refine ⟨keeper_mem hlinked hmem, ?_⟩
    rw [keeper_fields hlinked hmem]
    refine hall.rename fun place name hname => ?_
    rw [keeper_name hlinked, hname]
  onto := by
    intro u hu
    obtain ⟨t, ht, hkept, rfl⟩ := mem_mergeEquivalent.1 hu
    obtain ⟨site, ps, hocc, rfl⟩ := h.onto t ht
    exact ⟨site, ps, hocc, keeper_of_kept hlinked ht hkept⟩

end SchemaStructs
