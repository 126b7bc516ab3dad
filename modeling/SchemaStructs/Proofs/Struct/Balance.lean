import SchemaStructs.Proofs.Struct.Operations

/-!
The names in use and the table of shapes. Every operation that claims a name, gives it out, takes
it back or puts it on a struct keeps the account of names balanced.
-/

set_option autoImplicit false

namespace SchemaStructs

/-- Every name in use is taken once: it is the name of a struct, given out for an object that is
still being lowered, or one of `held`, claimed and not put anywhere yet. The table of shapes leads
to the first struct with each list of fields. -/
structure Balanced (held : List String) (s : Collected) : Prop where
  taken : s.taken.Perm (s.structs.map (·.name) ++ s.reserved.map (·.2) ++ held)
  distinct : s.taken.Nodup
  shapes : ∀ fields, s.shapes.lookup fields = (s.structs.find? (·.fields == fields)).map (·.name)

variable {s s' : Collected} {held : List String} {base name : String}

theorem Collected.shapes_add {t : Struct}
    (h : ∀ fields, s.shapes.lookup fields =
      (s.structs.find? (·.fields == fields)).map (·.name)) (fields : List Field) :
    (s.add t).shapes.lookup fields =
      ((s.add t).structs.find? (·.fields == fields)).map (·.name) := by
  simp only [Collected.add, List.find?_append]
  by_cases hsome : (s.shapes.lookup t.fields).isSome = true
  · rw [if_pos hsome, h]
    cases hfind : s.structs.find? (·.fields == fields) with
    | some u => simp
    | none =>
      have hne : t.fields ≠ fields := by
        rintro rfl
        simp [h, hfind] at hsome
      simp [hne]
  · rw [if_neg hsome, List.lookup_append, h]
    cases hfind : s.structs.find? (·.fields == fields) with
    | some u => simp
    | none =>
      by_cases heq : t.fields = fields
      · simp [heq]
      · simp [heq, Ne.symm heq]

namespace Balanced

theorem initial : Balanced [] {} := ⟨.refl _, .nil, fun _ => rfl⟩

theorem taken_of_struct (h : Balanced held s) (hname : name ∈ s.structs.map (·.name)) :
    name ∈ s.taken :=
  h.taken.mem_iff.2 (List.mem_append_left _ (List.mem_append_left _ hname))

theorem taken_of_reserved (h : Balanced held s) {e : Site × String} (he : e ∈ s.reserved) :
    e.2 ∈ s.taken :=
  h.taken.mem_iff.2 (List.mem_append_left _ (List.mem_append_right _ (List.mem_map_of_mem he)))

theorem distinct_structs (h : Balanced held s) : (s.structs.map (·.name)).Nodup := by
  have hnodup := h.taken.nodup_iff.1 h.distinct
  rw [List.append_assoc] at hnodup
  exact (List.nodup_append.1 hnodup).1

/-- A shape that is found belongs to a struct with the name that is found. -/
theorem exists_struct (h : Balanced held s) {fields : List Field}
    (hshape : s.shapes.lookup fields = some name) :
    ∃ t ∈ s.structs, t.name = name ∧ t.fields = fields := by
  rw [h.shapes, Option.map_eq_some_iff] at hshape
  obtain ⟨t, ht, rfl⟩ := hshape
  exact ⟨t, List.mem_of_find?_eq_some ht, rfl, by simpa using List.find?_some ht⟩

theorem take (h : Balanced held s) (hnew : name ∉ s.taken) :
    Balanced (name :: held) { s with taken := name :: s.taken } :=
  ⟨(h.taken.cons name).trans List.perm_middle.symm, List.nodup_cons.2 ⟨hnew, h.distinct⟩, h.shapes⟩

theorem giveOut {site : Site} (h : Balanced (name :: held) s) :
    Balanced held { s with reserved := (site, name) :: s.reserved } where
  taken := by
    refine h.taken.trans ?_
    simp only [List.map_cons, List.append_assoc]
    exact List.Perm.append_left _ List.perm_middle
  distinct := h.distinct
  shapes := h.shapes

theorem reserve {p : Pending} (h : Balanced held s)
    (run : (Lowering.reserve p).run s = .ok (name, s')) : Balanced held s' := by
  rcases Lowering.reserve_ok run with ⟨-, rfl⟩ | ⟨-, -, hnew, rfl⟩
  · exact h
  · exact (h.take hnew).giveOut

theorem takeBack {site : Site} (h : Balanced [] s) (hsites : (s.reserved.map (·.1)).Nodup) :
    Balanced (s.reserved.lookup site).toList (Lowering.released s site) := by
  refine ⟨h.taken.trans ?_, h.distinct, h.shapes⟩
  rw [List.append_nil, List.append_assoc]
  refine List.Perm.append_left _ ?_
  simp only [Lowering.released]
  cases hsite : s.reserved.lookup site with
  | none => simp [filter_eq_self_of_lookup hsite]
  | some name =>
    have hperm := (perm_cons_filter_of_lookup hsites hsite).map (·.2)
    exact hperm.trans (List.perm_append_singleton name _).symm

theorem add {t : Struct} (h : Balanced (t.name :: held) s) : Balanced held (s.add t) where
  taken := by
    refine h.taken.trans ?_
    simp only [Collected.add, List.map_append, List.map_cons, List.map_nil, List.append_assoc,
      List.singleton_append]
    exact List.Perm.append_left _ List.perm_middle
  distinct := h.distinct
  shapes := Collected.shapes_add h.shapes

theorem finish {fields : List Field} {reserved : Option String} {origin : Origin}
    (h : Balanced reserved.toList s)
    (run : (Lowering.finish fields base reserved origin).run s = .ok (name, s')) :
    Balanced [] s' := by
  rcases Lowering.finish_free run with ⟨rfl, rfl⟩ | ⟨rfl, -, rfl⟩ | ⟨rfl, -, hfree, rfl⟩
  · exact add h
  · exact h
  · exact add (t := ⟨name, fields, origin⟩) (h.take (Lowering.of_firstFree? hfree).2)

theorem settle {site : Site} {origin : Origin} {fields : List Field} (h : Balanced [] s)
    (hsites : (s.reserved.map (·.1)).Nodup)
    (run : (Lowering.settle site base origin fields).run s = .ok (name, s')) : Balanced [] s' := by
  obtain ⟨mid, hfinish, rfl⟩ := Lowering.settle_parts run
  obtain ⟨htaken, hdistinct, hshapes⟩ := (h.takeBack hsites).finish hfinish
  exact ⟨htaken, hdistinct, hshapes⟩

end Balanced

end SchemaStructs
