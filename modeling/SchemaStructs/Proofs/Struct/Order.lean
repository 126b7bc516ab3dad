import SchemaStructs.Proofs.Merge.Order
import SchemaStructs.Proofs.Struct.Complete

set_option autoImplicit false

namespace SchemaStructs

open Relation

theorem append_singleton_split {α : Type} {l before after : List α} {x a : α}
    (h : l ++ [x] = before ++ a :: after) :
    (before = l ∧ a = x) ∨ ∃ rest, l = before ++ a :: rest := by
  rcases List.eq_nil_or_concat after with rfl | ⟨rest, y, rfl⟩
  · obtain ⟨hl, ha⟩ := List.append_inj' h rfl
    simp only [List.cons.injEq, and_true] at ha
    exact .inl ⟨hl.symm, ha.symm⟩
  · rw [List.concat_eq_append, ← List.cons_append, ← List.append_assoc] at h
    exact .inr ⟨rest, (List.append_inj' h rfl).1⟩

variable {moduleName : String} {aliases : Aliases} {methods : List Method}

/-- The reference from the struct `name` to `n` closes a circle of objects. -/
def Circles (aliases : Aliases) (methods : List Method) (s : Collected) (name n : String) : Prop :=
  ∃ site place, s.lowered.lookup site = some name ∧ s.Names place n ∧
    Contains aliases methods site place ∧ ReflTransGen (Contains aliases methods) place site

def Ordered (aliases : Aliases) (methods : List Method) (s : Collected) : Prop :=
  ∀ before t after, s.structs = before ++ t :: after → ∀ k n, refAt t.fields k = some n →
    n ∈ before.map (·.name) ∨ Circles aliases methods s t.name n

section

variable {pending : List Pending} {s s' : Collected}

theorem Circles.mono {name n : String} (h : Circles aliases methods s name n)
    (hlowered : ∀ k m, s.lowered.lookup k = some m → s'.lowered.lookup k = some m)
    (hnames : ∀ k m, s.Names k m → s'.Names k m) : Circles aliases methods s' name n := by
  obtain ⟨site, place, hsite, hplace, hcircle⟩ := h
  exact ⟨site, place, hlowered site name hsite, hnames place n hplace, hcircle⟩

theorem Ordered.grow (h : Ordered aliases methods s) (hstructs : s'.structs = s.structs)
    (hlowered : ∀ k m, s.lowered.lookup k = some m → s'.lowered.lookup k = some m)
    (hnames : ∀ k m, s.Names k m → s'.Names k m) : Ordered aliases methods s' := by
  intro before t after hsplit k n hk
  exact (h before t after (hstructs ▸ hsplit) k n hk).imp_right fun h => h.mono hlowered hnames

theorem Ordered.settle {site : Site} {base name : String} {origin : Origin} {ps : List Property}
    {fields : List Field} (h : Ordered aliases methods s)
    (hi : Invariant aliases methods (⟨site, base⟩ :: pending, s))
    (hn : Nested aliases methods (⟨site, base⟩ :: pending))
    (occurs : Occurs aliases methods site (.object ps))
    (lowers : LowersAll aliases s.Names site 0 ps fields)
    (run : (Lowering.settle site base origin fields).run s = .ok (name, s')) :
    Ordered aliases methods s' := by
  have hs := hi.booked.settles run
  have hun := hi.booked.unlowered site List.mem_cons_self
  have hnames : ∀ k m, s.Names k m → s'.Names k m := fun _ _ => hs.names_mono hun
  have hlowered : ∀ k m, s.lowered.lookup k = some m → s'.lowered.lookup k = some m := by
    intro k m hk
    have hne : k ≠ site := by
      rintro rfl
      simp [hun] at hk
    rw [hs.lowered, lookup_cons_ne hne, hk]
  rcases Lowering.settle_structs run with hstructs | hstructs
  · exact h.grow hstructs hlowered hnames
  · intro before t after hsplit k n hk
    rcases append_singleton_split (hstructs ▸ hsplit) with ⟨rfl, rfl⟩ | ⟨rest, hrest⟩
    · obtain ⟨place, hplace, hcontains⟩ :=
        lowers.exists_held hk (.intro fun _ _ => .property occurs)
      rcases hplace with hdone | hheld
      · obtain ⟨_, _, u, hu, rfl, -⟩ := hi.faithful.lowered place n hdone
        exact .inl (List.mem_map_of_mem hu)
      · -- A reserved name belongs to the object itself or to one that it lies within.
        refine .inr ⟨site, place, by rw [hs.lowered, List.lookup_cons_self],
          hnames place n (.inr hheld), hcontains, ?_⟩
        obtain ⟨p, hp, rfl⟩ :=
          List.mem_map.1 (hi.booked.reservedPending place (mem_keys_of_lookup hheld))
        rcases List.mem_cons.1 hp with rfl | hp
        · exact .refl
        · exact ((List.pairwise_cons.1 hn).1 p hp).to_reflTransGen
    · exact (h before t rest hrest k n hk).imp_right fun h => h.mono hlowered hnames

end

theorem Step.nested {c c' : List Pending × Collected} (h : Step moduleName aliases methods c c')
    (hn : Nested aliases methods c.1) : Nested aliases methods c'.1 := by
  cases h with
  | enter met => exact hn.enter met
  | settle => exact (List.pairwise_cons.1 hn).2
  | reserve | record => exact hn

theorem Step.ordered {c c' : List Pending × Collected} (h : Step moduleName aliases methods c c')
    (hi : Invariant aliases methods c) (hn : Nested aliases methods c.1)
    (ho : Ordered aliases methods c.2) : Ordered aliases methods c'.2 := by
  cases h with
  | enter | record => exact ho
  | reserve _ run =>
    rcases Lowering.reserve_ok run with ⟨-, rfl⟩ | ⟨-, -, -, rfl⟩
    · exact ho
    · exact ho.grow rfl (fun _ _ h => h) fun _ _ => Lowering.reserve_names run
  | settle occurs _ _ lowers run => exact ho.settle hi hn occurs lowers run

theorem Steps.ordered {c : List Pending × Collected}
    (h : Steps moduleName aliases methods ([], {}) c) :
    Nested aliases methods c.1 ∧ Ordered aliases methods c.2 := by
  induction h with
  | refl => exact ⟨.nil, fun before t after h => by simp at h⟩
  | tail hsteps hstep ih =>
    exact ⟨hstep.nested ih.1, hstep.ordered (Steps.invariant hsteps .initial) ih.1 ih.2⟩

namespace Complete

variable {s : Collected} {site place : Site} {n m : String}

theorem pointsTo_path (h : Complete aliases methods s)
    (path : ReflTransGen (Contains aliases methods) place site) (hplace : s.Names place n)
    (hsite : s.lowered.lookup site = some m) : ReflTransGen (PointsTo s.structs) n m := by
  induction path using ReflTransGen.head_induction_on generalizing n with
  | refl =>
    rw [h.lowered_of_names hplace, Option.some.injEq] at hsite
    rw [hsite]
  | head hcontains _ ih =>
    obtain ⟨ps, hocc, t, ht, rfl, hall⟩ := h.struct_of_names hplace
    obtain ⟨k, r, hk, hr⟩ := hcontains.exists_ref hocc hall
    exact .head ⟨t, ht, rfl, k, hk⟩ (ih hr)

end Complete

end SchemaStructs
