import SchemaStructs.Proofs.Merge.Unfolding
import SchemaStructs.Proofs.Struct.Run

/-!
The order that lowering keeps in what it collects. Names are claimed deep within an object for one
further out and put on a struct only when that one is done, so the account of names and the tables
are stated for a moment at which some objects are being lowered. The objects being lowered and the
access path are arguments, so they are the same after a call as before; what a call can add for
them are reserved names.
-/

set_option autoImplicit false

namespace SchemaStructs

open Lowering

def FieldType.Within (names : List String) (f : FieldType String) : Prop :=
  ∀ n, f.ref? = some n → n ∈ names

instance (names : List String) (f : FieldType String) : Decidable (f.Within names) :=
  inferInstanceAs (Decidable (∀ n ∈ f.ref?, n ∈ names))

theorem FieldType.Within.struct {names : List String} {n : String} (h : n ∈ names) :
    (FieldType.struct n).Within names := by
  intro m hm
  rw [FieldType.ref?, Option.some.injEq] at hm
  exact hm ▸ h

/-- What has been collected is in order while the objects in `pending` are being lowered and the
names in `held` are claimed and not put anywhere yet. -/
structure Orderly (pending : List Pending) (held : List String) (s : Collected) : Prop
    extends Balanced held s where
  sites : (pending.map (·.site)).Nodup
  reservedSites : (s.reserved.map (·.1)).Nodup
  reservedPending : ∀ site ∈ s.reserved.map (·.1), site ∈ pending.map (·.site)
  named : ∀ e ∈ s.named, e.2 ∈ s.structs.map (·.name)
  lowered : ∀ e ∈ s.lowered, e.2 ∈ s.structs.map (·.name)
  refs : ∀ t ∈ s.structs, ∀ field ∈ t.fields, field.type.Within s.taken

/-- What has been collected is in order afterwards and has only grown: structs and names are
added, and names that were reserved before still are. -/
structure Advances (pending : List Pending) (held : List String) (s s' : Collected) : Prop where
  orderly : Orderly pending held s'
  structs : s.structs <+: s'.structs
  taken : s.taken <:+ s'.taken
  reserved : ∀ site name, s.reserved.lookup site = some name → s'.reserved.lookup site = some name

variable {pending : List Pending} {held held' : List String} {s mid s' : Collected} {site : Site}
  {base name : String} {origin : Origin} {fields : List Field}

namespace Advances

theorem refl (h : Orderly pending held s) : Advances pending held s s :=
  ⟨h, List.prefix_rfl, List.suffix_rfl, fun _ _ hk => hk⟩

theorem trans (h : Advances pending held s mid) (h' : Advances pending held' mid s') :
    Advances pending held' s s' where
  orderly := h'.orderly
  structs := h.structs.trans h'.structs
  taken := h.taken.trans h'.taken
  reserved := fun k n hk => h'.reserved k n (h.reserved k n hk)

theorem within (h : Advances pending held s s') {f : FieldType String} (hf : f.Within s.taken) :
    f.Within s'.taken := fun n hn => h.taken.subset (hf n hn)

end Advances

namespace Orderly

theorem initial : Orderly [] [] {} where
  toBalanced := .initial
  sites := .nil
  reservedSites := .nil
  reservedPending := by simp
  named := by simp
  lowered := by simp
  refs := by simp

theorem enter (h : Orderly pending held s) (fresh : site ∉ pending.map (·.site)) :
    Orderly (⟨site, base⟩ :: pending) held s :=
  { h with
    sites := List.nodup_cons.2 ⟨fresh, h.sites⟩
    reservedPending := fun k hk => List.mem_cons_of_mem _ (h.reservedPending k hk) }

theorem take (h : Orderly pending held s) (hnew : name ∉ s.taken) :
    Advances pending (name :: held) s { s with taken := name :: s.taken } where
  orderly :=
    { h with
      toBalanced := h.toBalanced.take hnew
      refs := fun t ht field hfield n hn =>
        List.mem_cons_of_mem _ (h.refs t ht field hfield n hn) }
  structs := List.prefix_rfl
  taken := List.suffix_cons _ _
  reserved := fun _ _ hk => hk

theorem claim (h : Orderly pending held s)
    (run : (Lowering.claim base).run s = .ok (name, s')) :
    Advances pending (name :: held) s s' := by
  obtain ⟨-, hnew, rfl⟩ := claim_ok run
  exact h.take hnew

theorem giveOut (h : Orderly pending (name :: held) s) (hsite : site ∈ pending.map (·.site))
    (hnone : s.reserved.lookup site = none) :
    Advances pending held s { s with reserved := (site, name) :: s.reserved } where
  orderly :=
    { h with
      toBalanced := h.toBalanced.giveOut
      reservedSites := List.nodup_cons.2 ⟨lookup_eq_none_iff_notMem.1 hnone, h.reservedSites⟩
      reservedPending := List.forall_mem_cons.2 ⟨hsite, h.reservedPending⟩ }
  structs := List.prefix_rfl
  taken := List.suffix_rfl
  reserved := fun k n hk => by
    have hne : k ≠ site := by
      rintro rfl
      simp [hnone] at hk
    rw [lookup_cons_ne hne, hk]

theorem reserve {p : Pending} (h : Orderly pending held s) (mem : p ∈ pending)
    (run : (Lowering.reserve p).run s = .ok (name, s')) :
    Advances pending held s s' ∧ s'.reserved.lookup p.site = some name := by
  rcases reserve_ok run with ⟨hheld, rfl⟩ | ⟨hnone, -, hnew, rfl⟩
  · exact ⟨.refl h, hheld⟩
  · have htaken := h.take hnew
    exact ⟨htaken.trans (htaken.orderly.giveOut (List.mem_map_of_mem mem) hnone),
      List.lookup_cons_self⟩

/-- The object that was entered last is no longer being lowered, and its name waits for a struct. -/
theorem takeBack (h : Orderly (⟨site, base⟩ :: pending) [] s) :
    Orderly pending (s.reserved.lookup site).toList (released s site) :=
  { h with
    toBalanced := h.toBalanced.takeBack h.reservedSites
    sites := (List.nodup_cons.1 h.sites).2
    reservedSites := (List.filter_sublist.map _).nodup h.reservedSites
    reservedPending := fun k hk => by
      obtain ⟨hk, hne⟩ := mem_released.1 hk
      exact List.mem_of_ne_of_mem hne (h.reservedPending k hk) }

theorem add {t : Struct} (h : Orderly pending (t.name :: held) s)
    (hfields : ∀ field ∈ t.fields, field.type.Within s.taken) :
    Advances pending held s (s.add t) where
  orderly :=
    { h with
      toBalanced := h.toBalanced.add
      named := fun e he => by
        simp only [Collected.add, List.map_append]
        exact List.mem_append_left _ (h.named e he)
      lowered := fun e he => by
        simp only [Collected.add, List.map_append]
        exact List.mem_append_left _ (h.lowered e he)
      refs := List.forall_mem_append.2 ⟨h.refs, List.forall_mem_singleton.2 hfields⟩ }
  structs := List.prefix_append _ _
  taken := List.suffix_rfl
  reserved := fun _ _ hk => hk

/-- A reserved name goes to a struct of its own, whatever structs there are. -/
theorem finish {reserved : Option String} (h : Orderly pending reserved.toList s)
    (hfields : ∀ field ∈ fields, field.type.Within s.taken)
    (run : (Lowering.finish fields base reserved origin).run s = .ok (name, s')) :
    Advances pending [] s s' ∧ (∃ t ∈ s'.structs, t.name = name ∧ t.fields = fields) ∧
      ∀ n ∈ reserved, n = name ∧ s'.structs = s.structs ++ [⟨n, fields, origin⟩] := by
  have hadd : ∀ {s : Collected}, ∃ t ∈ (s.add ⟨name, fields, origin⟩).structs,
      t.name = name ∧ t.fields = fields :=
    ⟨_, List.mem_append_right _ (List.mem_singleton.2 rfl), rfl, rfl⟩
  rcases finish_free run with ⟨rfl, rfl⟩ | ⟨rfl, hshape, rfl⟩ | ⟨rfl, -, hfree, rfl⟩
  · refine ⟨h.add hfields, hadd, fun n hn => ?_⟩
    obtain rfl := Option.mem_some_iff.1 hn
    exact ⟨rfl, rfl⟩
  · exact ⟨.refl h, h.exists_struct hshape, nofun⟩
  · have htaken := h.take (of_firstFree? hfree).2
    have hpushed := htaken.orderly.add (t := ⟨name, fields, origin⟩) fun field hfield =>
      htaken.within (hfields field hfield)
    exact ⟨htaken.trans hpushed, hadd, nofun⟩

theorem recordLowered (h : Orderly pending held s) (hname : name ∈ s.structs.map (·.name)) :
    Advances pending held s { s with lowered := (site, name) :: s.lowered } :=
  { Advances.refl h with
    orderly := { h with lowered := List.forall_mem_cons.2 ⟨hname, h.lowered⟩ } }

theorem recordNamed (h : Orderly pending held s) (names : List String)
    (hname : name ∈ s.structs.map (·.name)) :
    Advances pending held s { s with named := names.map (·, name) ++ s.named } :=
  { Advances.refl h with
    orderly :=
      { h with
        named := List.forall_mem_append.2 ⟨List.forall_mem_map.2 fun _ _ => hname, h.named⟩ } }

theorem settle (h : Orderly (⟨site, base⟩ :: pending) [] s)
    (hfields : ∀ field ∈ fields, field.type.Within s.taken)
    (run : (Lowering.settle site base origin fields).run s = .ok (name, s')) :
    Advances pending [] (released s site) s' ∧ name ∈ s'.structs.map (·.name) := by
  obtain ⟨mid, hfinish, rfl⟩ := settle_parts run
  obtain ⟨hmid, ⟨t, ht, rfl, -⟩, -⟩ := h.takeBack.finish hfields hfinish
  have hname : t.name ∈ mid.structs.map (·.name) := List.mem_map_of_mem ht
  exact ⟨hmid.trans (hmid.orderly.recordLowered hname), hname⟩

end Orderly

def EntersInOrder
    (enter : List Pending → List String → String → Lowering (FieldType String)) : Prop :=
  ∀ {pending : List Pending} {path : List String} {n : String} {s s' : Collected}
    {f : FieldType String}, Orderly pending [] s →
    (enter pending path n).run s = .ok (f, s') → Advances pending [] s s' ∧ f.Within s'.taken

variable {moduleName : String}

/-- An object that is not being lowered further out has a struct afterwards. -/
theorem lowerObject_advances {path : List String} {ps : List Property}
    {lowerFields : List Pending → Lowering (List Field)}
    (hfields : ∀ {base : String} {s s' : Collected} {fs : List Field},
      Orderly (⟨site, base⟩ :: pending) [] s →
      (lowerFields (⟨site, base⟩ :: pending)).run s = .ok (fs, s') →
      Advances (⟨site, base⟩ :: pending) [] s s' ∧ ∀ field ∈ fs, field.type.Within s'.taken)
    (h : Orderly pending [] s)
    (run : (lowerObject moduleName pending site path origin ps lowerFields).run s =
      .ok (name, s')) :
    Advances pending [] s s' ∧ name ∈ s'.taken ∧
      (site ∉ pending.map (·.site) → name ∈ s'.structs.map (·.name)) := by
  unfold lowerObject at run
  split at run
  · next p hp =>
    have hmem := List.mem_of_find?_eq_some hp
    have hsite : p.site = site := by simpa using List.find?_some hp
    obtain ⟨hadvances, hreserved⟩ := h.reserve hmem run
    have htaken := hadvances.orderly.taken_of_reserved (mem_of_lookup hreserved)
    refine ⟨hadvances, htaken, fun hnot => ?_⟩
    exact absurd (hsite ▸ List.mem_map_of_mem hmem) hnot
  · next hp =>
    have hfresh := find?_site_eq_none.1 hp
    rw [get_bind] at run
    split at run
    · next done hdone =>
      obtain ⟨rfl, rfl⟩ := pure_ok.1 run
      have hname := h.lowered _ (mem_of_lookup hdone)
      exact ⟨.refl h, h.taken_of_struct hname, fun _ => hname⟩
    · split at run
      · simp at run
      · obtain ⟨fs, mid, hrun, hsettle⟩ := bind_ok.1 run
        obtain ⟨hmid, hwithin⟩ := hfields (h.enter hfresh) hrun
        obtain ⟨hdone, hname⟩ := hmid.orderly.settle hwithin hsettle
        -- No name was reserved for the object before it was entered, so none is lost with it.
        have hkept : ∀ k n, s.reserved.lookup k = some n →
            (released mid site).reserved.lookup k = some n := by
          intro k n hk
          have hne : k ≠ site := by
            rintro rfl
            exact hfresh (h.reservedPending k (mem_keys_of_lookup hk))
          exact (lookup_filter_ne hne).trans (hmid.reserved k n hk)
        have hadvances : Advances pending [] s s' :=
          ⟨hdone.orderly, hmid.structs.trans hdone.structs, hmid.taken.trans hdone.taken,
            fun k n hk => hdone.reserved k n (hkept k n hk)⟩
        exact ⟨hadvances, hdone.orderly.taken_of_struct hname, fun _ => hname⟩

section

variable {enter : List Pending → List String → String → Lowering (FieldType String)}

mutual

theorem lowerType_advances (henter : EntersInOrder enter) {pending : List Pending} {site : Site}
    {path : List String} {s s' : Collected} {f : FieldType String} (t : SchemaType)
    (h : Orderly pending [] s)
    (run : (lowerType moduleName enter pending site path t).run s = .ok (f, s')) :
    Advances pending [] s s' ∧ f.Within s'.taken := by
  match t with
  | .scalar .bool | .scalar .number | .scalar .string | .generic | .enum (_ :: _) =>
    obtain ⟨rfl, rfl⟩ := pure_ok.1 run
    exact ⟨.refl h, nofun⟩
  | .scalar .void | .enum [] => simp [lowerType] at run
  | .array element | .nullable element =>
    obtain ⟨f, mid, hf, hrest⟩ := bind_ok.1 run
    obtain ⟨rfl, rfl⟩ := pure_ok.1 hrest
    obtain ⟨hadvances, hwithin⟩ := lowerType_advances henter element h hf
    exact ⟨hadvances, hwithin⟩
  | .object ps =>
    obtain ⟨name, mid, hname, hrest⟩ := bind_ok.1 run
    obtain ⟨rfl, rfl⟩ := pure_ok.1 hrest
    obtain ⟨hadvances, htaken, -⟩ := lowerObject_advances
      (fun h hfs => lowerProperties_advances henter ps 0 h hfs) h hname
    exact ⟨hadvances, .struct htaken⟩
  | .named n => exact henter h run

theorem lowerProperties_advances (henter : EntersInOrder enter) {pending : List Pending}
    {site : Site} {path : List String} {s s' : Collected} {fs : List Field} (ps : List Property)
    (k : Nat) (h : Orderly pending [] s)
    (run : (lowerProperties moduleName enter pending site path k ps).run s = .ok (fs, s')) :
    Advances pending [] s s' ∧ ∀ field ∈ fs, field.type.Within s'.taken := by
  match ps with
  | [] =>
    obtain ⟨rfl, rfl⟩ := pure_ok.1 run
    exact ⟨.refl h, by simp⟩
  | ⟨name, t, optional⟩ :: ps =>
    obtain ⟨f, mid, hf, hrest⟩ := bind_ok.1 run
    obtain ⟨fs, mid', hfs, hrest⟩ := bind_ok.1 hrest
    obtain ⟨rfl, rfl⟩ := pure_ok.1 hrest
    obtain ⟨hmid, hwithin⟩ := lowerType_advances henter t h hf
    obtain ⟨hadvances, hall⟩ := lowerProperties_advances henter ps (k + 1) hmid.orderly hfs
    exact ⟨hmid.trans hadvances, List.forall_mem_cons.2 ⟨hadvances.within hwithin, hall⟩⟩

end

end

/-- An alias is put on record only when the object behind it is no longer being lowered. -/
theorem lowerAlias_advances (aliases : Aliases) (budget : Nat) :
    EntersInOrder (lowerAlias moduleName aliases budget) := by
  induction budget with
  | zero =>
    intro pending path n s s' f h run
    simp [lowerAlias] at run
  | succ budget ih =>
    intro pending path n s s' f h run
    rw [lowerAlias] at run
    split at run
    · simp at run
    · next chain _ =>
      split at run
      · rw [get_bind] at run
        split at run
        · next struct hknown =>
          obtain ⟨rfl, rfl⟩ := recordNamed_ok.1 run
          have hname := h.named _ (mem_of_lookup hknown)
          exact ⟨h.recordNamed _ hname, .struct (h.taken_of_struct hname)⟩
        · obtain ⟨struct, mid, hobject, hrest⟩ := bind_ok.1 run
          obtain ⟨hmid, htaken, hname⟩ := lowerObject_advances
            (fun h hfs => lowerProperties_advances ih _ 0 h hfs) h hobject
          split at hrest
          · obtain ⟨rfl, rfl⟩ := pure_ok.1 hrest
            exact ⟨hmid, .struct htaken⟩
          · next hfresh =>
            obtain ⟨rfl, rfl⟩ := recordNamed_ok.1 hrest
            have hrecord := hmid.orderly.recordNamed chain.names (hname (by simpa using hfresh))
            exact ⟨hmid.trans hrecord, .struct htaken⟩
      · exact lowerType_advances ih _ h run

theorem lowerSlots_advances {within : Aliases → Nat} (i : Nat) (rest : List (Slot × Aliases))
    (h : Orderly [] [] s)
    (run : (lowerSlots moduleName within i rest).run s = .ok ((), s')) : Advances [] [] s s' := by
  induction rest generalizing i s with
  | nil =>
    obtain ⟨-, rfl⟩ := pure_ok.1 run
    exact .refl h
  | cons e rest ih =>
    obtain ⟨slot, g⟩ := e
    rw [lowerSlots] at run
    split at run
    · exact ih (i + 1) h run
    · obtain ⟨f, mid, hf, hrest⟩ := bind_ok.1 run
      have hmid := (lowerType_advances (lowerAlias_advances g _) slot.type h hf).1
      exact hmid.trans (ih (i + 1) hmid.orderly hrest)

/-- When no object is being lowered, every name that was ever claimed is on a struct. -/
theorem Orderly.settled (h : Orderly [] [] s) :
    s.reserved = [] ∧ s.taken.Perm (s.structs.map (·.name)) ∧ Linked s.structs := by
  have hreserved : s.reserved = [] := by
    rw [← List.map_eq_nil_iff (f := (·.1)), List.eq_nil_iff_forall_not_mem]
    intro k hk
    simpa using h.reservedPending k hk
  have htaken : s.taken.Perm (s.structs.map (·.name)) := by simpa [hreserved] using h.taken
  refine ⟨hreserved, htaken, h.distinct_structs, fun t ht k n hk => ?_⟩
  obtain ⟨field, hfield, href⟩ := exists_refAt_iff.1 ⟨k, hk⟩
  exact htaken.subset (h.refs t ht field hfield n href)

end SchemaStructs
