import SchemaStructs.Proofs.Lookup
import SchemaStructs.Proofs.Outcome
import SchemaStructs.Struct.Lowering

set_option autoImplicit false

namespace SchemaStructs.Lowering

variable {α β : Type} {s s' : Collected}

@[simp] theorem run_stop (why : Halt HeaderError) :
    (stop why : Lowering α).run s = .error ⟨why, s⟩ := rfl

@[simp] theorem run_fail (e : HeaderError) :
    (fail e : Lowering α).run s = .error ⟨.failed e, s⟩ := rfl

theorem pure_ok {a b : α} : (pure a : Lowering α).run s = .ok (b, s') ↔ a = b ∧ s = s' := by simp

theorem bind_ok {x : Lowering α} {f : α → Lowering β} {b : β} :
    (x >>= f).run s = .ok (b, s') ↔
      ∃ a mid, x.run s = .ok (a, mid) ∧ (f a).run mid = .ok (b, s') := by simp

theorem bind_error {x : Lowering α} {f : α → Lowering β} {e : Halted} :
    (x >>= f).run s = .error e ↔
      x.run s = .error e ∨ ∃ a mid, x.run s = .ok (a, mid) ∧ (f a).run mid = .error e := by simp

theorem pure_ne_error {a : α} {e : Halted} : (pure a : Lowering α).run s ≠ .error e := by simp

@[simp] theorem get_bind {f : Collected → Lowering β} :
    (get >>= f).run s = (f s).run s := rfl

@[simp] theorem set_bind {f : Unit → Lowering β} {mid : Collected} :
    (set mid >>= f).run s = (f ()).run mid := rfl

@[simp] theorem modify_bind {f : Unit → Lowering β} {g : Collected → Collected} :
    (modify g >>= f).run s = (f ()).run (g s) := rfl

theorem recordNamed_ok {names : List String} {name : String} {a b : α} :
    (recordNamed names name >>= fun _ => pure a).run s = .ok (b, s') ↔
      a = b ∧ { s with named := names.map (·, name) ++ s.named } = s' := by
  simp [recordNamed]

theorem recordNamed_ne_error {names : List String} {name : String} {a : α} {e : Halted} :
    (recordNamed names name >>= fun _ => pure a).run s ≠ .error e := by
  simp [recordNamed]

theorem claim_free {base name : String} (h : (claim base).run s = .ok (name, s')) :
    Naming.firstFree? s.taken base Naming.maxNumber = some name ∧
      s' = { s with taken := name :: s.taken } := by
  unfold claim at h
  rw [get_bind] at h
  split at h
  · next free hfree =>
    rw [set_bind, pure_ok] at h
    obtain ⟨rfl, rfl⟩ := h
    exact ⟨hfree, rfl⟩
  · simp at h

theorem of_firstFree? {taken : List String} {base name : String}
    (h : Naming.firstFree? taken base Naming.maxNumber = some name) :
    name ∈ Naming.candidates base Naming.maxNumber ∧ name ∉ taken := by
  have hnew := List.find?_some h
  simp only [List.contains_eq_mem, Bool.not_eq_true', decide_eq_false_iff_not] at hnew
  exact ⟨List.mem_of_find?_eq_some h, hnew⟩

theorem claim_ok {base name : String} (h : (claim base).run s = .ok (name, s')) :
    name ∈ Naming.candidates base Naming.maxNumber ∧ name ∉ s.taken ∧
      s' = { s with taken := name :: s.taken } := by
  obtain ⟨hfree, rfl⟩ := claim_free h
  obtain ⟨hcandidate, hnew⟩ := of_firstFree? hfree
  exact ⟨hcandidate, hnew, rfl⟩

/-- The names are all taken in the state in which the claim fails. -/
theorem claim_error {base : String} {e : Halted} (h : (claim base).run s = .error e) :
    (∀ n ∈ Naming.candidates base Naming.maxNumber, n ∈ s.taken) ∧
      e = ⟨.failed (.namesExhausted base Naming.maxNumber), s⟩ := by
  unfold claim at h
  rw [get_bind] at h
  split at h
  · simp at h
  · next hnone =>
    refine ⟨fun n hn => ?_, ?_⟩
    · simpa using List.find?_eq_none.1 hnone n hn
    · simpa using h.symm

theorem reserve_ok {p : Pending} {name : String} (h : (reserve p).run s = .ok (name, s')) :
    s.reserved.lookup p.site = some name ∧ s' = s ∨
      s.reserved.lookup p.site = none ∧ name ∈ Naming.candidates p.base Naming.maxNumber ∧
        name ∉ s.taken ∧
        s' = { s with taken := name :: s.taken, reserved := (p.site, name) :: s.reserved } := by
  unfold reserve at h
  rw [get_bind] at h
  split at h
  · next held hheld =>
    obtain ⟨rfl, rfl⟩ := pure_ok.1 h
    exact .inl ⟨hheld, rfl⟩
  · next hnone =>
    obtain ⟨free, mid, hclaim, hrest⟩ := bind_ok.1 h
    obtain ⟨hcandidate, hnew, rfl⟩ := claim_ok hclaim
    rw [modify_bind, pure_ok] at hrest
    obtain ⟨rfl, rfl⟩ := hrest
    exact .inr ⟨hnone, hcandidate, hnew, rfl⟩

theorem reserve_error {p : Pending} {e : Halted} (h : (reserve p).run s = .error e) :
    (claim p.base).run s = .error e := by
  unfold reserve at h
  rw [get_bind] at h
  split at h
  · simp at h
  · simpa using h

def released (s : Collected) (site : Site) : Collected :=
  { s with reserved := s.reserved.filter (·.1 != site) }

theorem mem_released {site k : Site} : k ∈ (released s site).reserved.map (·.1) ↔
    k ∈ s.reserved.map (·.1) ∧ k ≠ site := by
  simp only [released, List.mem_map, List.mem_filter, bne_iff_ne]
  constructor
  · rintro ⟨e, ⟨he, hne⟩, rfl⟩
    exact ⟨⟨e, he, rfl⟩, hne⟩
  · rintro ⟨⟨e, he, rfl⟩, hne⟩
    exact ⟨e, ⟨he, hne⟩, rfl⟩

theorem released_eq_self {site : Site} (h : s.reserved.lookup site = none) :
    released s site = s := by
  rw [released, filter_eq_self_of_lookup h]

theorem release_ok {site : Site} {reserved : Option String}
    (h : (release site).run s = .ok (reserved, s')) :
    reserved = s.reserved.lookup site ∧ s' = released s site := by
  unfold release at h
  rw [get_bind, set_bind, pure_ok] at h
  exact ⟨h.1.symm, h.2.symm⟩

/-- An object ends as a struct with its reserved name, as an earlier struct with the same fields,
or as a struct with the next free name. -/
theorem finish_free {base name : String} {reserved : Option String} {origin : Origin}
    {fields : List Field} (h : (finish fields base reserved origin).run s = .ok (name, s')) :
    (reserved = some name ∧ s' = s.add ⟨name, fields, origin⟩) ∨
    (reserved = none ∧ s.shapes.lookup fields = some name ∧ s' = s) ∨
    (reserved = none ∧ s.shapes.lookup fields = none ∧
      Naming.firstFree? s.taken base Naming.maxNumber = some name ∧
      s' = { s.add ⟨name, fields, origin⟩ with taken := name :: s.taken }) := by
  unfold finish push at h
  cases reserved with
  | some held =>
    simp only [modify_bind] at h
    obtain ⟨rfl, rfl⟩ := pure_ok.1 h
    exact .inl ⟨rfl, rfl⟩
  | none =>
    simp only [get_bind] at h
    split at h
    · next earlier hearlier =>
      obtain ⟨rfl, rfl⟩ := pure_ok.1 h
      exact .inr (.inl ⟨rfl, hearlier, rfl⟩)
    · next hshape =>
      obtain ⟨free, mid, hclaim, hpush⟩ := bind_ok.1 h
      obtain ⟨hfree, rfl⟩ := claim_free hclaim
      rw [modify_bind, pure_ok] at hpush
      obtain ⟨rfl, rfl⟩ := hpush
      exact .inr (.inr ⟨rfl, hshape, hfree, rfl⟩)

/-- To settle an object is to release its name, to finish it and to put it on record. -/
theorem settle_parts {site : Site} {base name : String} {origin : Origin} {fields : List Field}
    (h : (settle site base origin fields).run s = .ok (name, s')) :
    ∃ mid, (finish fields base (s.reserved.lookup site) origin).run (released s site) =
        .ok (name, mid) ∧ s' = { mid with lowered := (site, name) :: mid.lowered } := by
  unfold settle recordLowered at h
  obtain ⟨reserved, freed, hrelease, h⟩ := bind_ok.1 h
  obtain ⟨rfl, rfl⟩ := release_ok hrelease
  obtain ⟨name', mid, hfinish, h⟩ := bind_ok.1 h
  rw [modify_bind, pure_ok] at h
  obtain ⟨rfl, rfl⟩ := h
  exact ⟨mid, hfinish, rfl⟩

theorem settle_free {site : Site} {base name : String} {origin : Origin} {fields : List Field}
    (h : (settle site base origin fields).run s = .ok (name, s')) :
    (s.reserved.lookup site = some name ∧
      s' = { (released s site).add ⟨name, fields, origin⟩ with
        lowered := (site, name) :: s.lowered }) ∨
    (s.reserved.lookup site = none ∧ s.shapes.lookup fields = some name ∧
      s' = { released s site with lowered := (site, name) :: s.lowered }) ∨
    (s.reserved.lookup site = none ∧ s.shapes.lookup fields = none ∧
      Naming.firstFree? s.taken base Naming.maxNumber = some name ∧
      s' = { (released s site).add ⟨name, fields, origin⟩ with
        taken := name :: s.taken, lowered := (site, name) :: s.lowered }) := by
  obtain ⟨mid, hfinish, rfl⟩ := settle_parts h
  rcases finish_free hfinish with ⟨hheld, rfl⟩ | ⟨hnone, hshape, rfl⟩ | ⟨hnone, hshape, hfree, rfl⟩
  · exact .inl ⟨hheld, rfl⟩
  · exact .inr (.inl ⟨hnone, hshape, rfl⟩)
  · exact .inr (.inr ⟨hnone, hshape, hfree, rfl⟩)

theorem settle_ok {site : Site} {base name : String} {origin : Origin} {fields : List Field}
    (h : (settle site base origin fields).run s = .ok (name, s')) :
    (s.reserved.lookup site = some name ∧
      s' = { (released s site).add ⟨name, fields, origin⟩ with
        lowered := (site, name) :: s.lowered }) ∨
    (s.reserved.lookup site = none ∧ s.shapes.lookup fields = some name ∧
      s' = { released s site with lowered := (site, name) :: s.lowered }) ∨
    (s.reserved.lookup site = none ∧ s.shapes.lookup fields = none ∧
      name ∈ Naming.candidates base Naming.maxNumber ∧ name ∉ s.taken ∧
      s' = { (released s site).add ⟨name, fields, origin⟩ with
        taken := name :: s.taken, lowered := (site, name) :: s.lowered }) := by
  rcases settle_free h with hheld | hearlier | ⟨hnone, hshape, hfree, rfl⟩
  · exact .inl hheld
  · exact .inr (.inl hearlier)
  · obtain ⟨hcandidate, hnew⟩ := of_firstFree? hfree
    exact .inr (.inr ⟨hnone, hshape, hcandidate, hnew, rfl⟩)

theorem finish_error {base : String} {reserved : Option String} {origin : Origin}
    {fields : List Field} {e : Halted}
    (h : (finish fields base reserved origin).run s = .error e) :
    reserved = none ∧ s.shapes.lookup fields = none ∧ (claim base).run s = .error e := by
  unfold finish push at h
  split at h
  · simp at h
  · rw [get_bind] at h
    split at h
    · simp at h
    · next hshape => exact ⟨rfl, hshape, by simpa using h⟩

theorem settle_error {site : Site} {base : String} {origin : Origin} {fields : List Field}
    {e : Halted} (h : (settle site base origin fields).run s = .error e) :
    s.shapes.lookup fields = none ∧ (claim base).run s = .error e := by
  unfold settle recordLowered at h
  rcases bind_error.1 h with h | ⟨reserved, mid, hrelease, h⟩
  · simp [release] at h
  · obtain ⟨rfl, rfl⟩ := release_ok hrelease
    obtain ⟨hnone, hshape, hclaim⟩ := finish_error (by simpa using h)
    rw [released_eq_self hnone] at hshape hclaim
    exact ⟨hshape, hclaim⟩

theorem settle_structs {site : Site} {base name : String} {origin : Origin} {fields : List Field}
    (h : (settle site base origin fields).run s = .ok (name, s')) :
    s'.structs = s.structs ∨ s'.structs = s.structs ++ [⟨name, fields, origin⟩] := by
  rcases settle_ok h with ⟨-, rfl⟩ | ⟨-, -, rfl⟩ | ⟨-, -, -, -, rfl⟩
  · exact .inr rfl
  · exact .inl rfl
  · exact .inr rfl

end SchemaStructs.Lowering
