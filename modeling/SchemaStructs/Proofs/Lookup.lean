set_option autoImplicit false

namespace SchemaStructs

variable {κ α : Type} [BEq κ] [LawfulBEq κ]

theorem mem_of_lookup {es : List (κ × α)} {k : κ} {a : α} (h : es.lookup k = some a) :
    (k, a) ∈ es := by
  obtain ⟨before, after, rfl, -⟩ := List.lookup_eq_some_iff.1 h
  simp

theorem mem_keys_of_lookup {es : List (κ × α)} {k : κ} {a : α} (h : es.lookup k = some a) :
    k ∈ es.map (·.1) := List.mem_map_of_mem (mem_of_lookup h)

theorem lookup_eq_none_iff_notMem {es : List (κ × α)} {k : κ} :
    es.lookup k = none ↔ k ∉ es.map (·.1) := by
  simp only [List.lookup_eq_none_iff, List.mem_map, not_exists, not_and]
  constructor
  · intro h e he hk
    simpa [hk] using h e he
  · intro h e he
    have := h e he
    simpa using fun hk => this hk.symm

theorem exists_lookup_of_mem {es : List (κ × α)} {k : κ} (h : k ∈ es.map (·.1)) :
    ∃ a, es.lookup k = some a := by
  cases hk : es.lookup k with
  | none => exact absurd h (lookup_eq_none_iff_notMem.1 hk)
  | some a => exact ⟨a, rfl⟩

theorem lookup_cons_ne {es : List (κ × α)} {k j : κ} {a : α} (h : k ≠ j) :
    ((j, a) :: es).lookup k = es.lookup k := by
  rw [List.lookup_cons, beq_false_of_ne h]

theorem lookup_filter_ne {es : List (κ × α)} {k j : κ} (h : k ≠ j) :
    (es.filter (·.1 != j)).lookup k = es.lookup k := by
  induction es with
  | nil => rfl
  | cons e es ih =>
    obtain ⟨m, a⟩ := e
    by_cases hm : m = j
    · subst hm
      rw [lookup_cons_ne h, ← ih]
      simp
    · have hkeep : ((m, a) :: es).filter (·.1 != j) = (m, a) :: es.filter (·.1 != j) := by
        simp [hm]
      rw [hkeep, List.lookup_cons, List.lookup_cons, ih]

theorem filter_eq_self_of_lookup {es : List (κ × α)} {k : κ} (h : es.lookup k = none) :
    es.filter (·.1 != k) = es := by
  refine List.filter_eq_self.2 fun e he => ?_
  have hmem : e.1 ∈ es.map (·.1) := List.mem_map_of_mem he
  rw [lookup_eq_none_iff_notMem] at h
  rw [bne_iff_ne]
  rintro rfl
  exact h hmem

/-- Where no key comes twice, a binding that is found and the others make up the list. -/
theorem perm_cons_filter_of_lookup {es : List (κ × α)} {k : κ} {a : α}
    (hnodup : (es.map (·.1)).Nodup) (h : es.lookup k = some a) :
    es.Perm ((k, a) :: es.filter (·.1 != k)) := by
  induction es with
  | nil => simp at h
  | cons e es ih =>
    obtain ⟨m, b⟩ := e
    rw [List.map_cons, List.nodup_cons] at hnodup
    by_cases hm : k = m
    · subst hm
      rw [List.lookup_cons_self, Option.some.injEq] at h
      subst h
      have hrest := filter_eq_self_of_lookup (lookup_eq_none_iff_notMem.2 hnodup.1)
      simp [hrest]
    · rw [lookup_cons_ne hm] at h
      have hkeep : ((m, b) :: es).filter (·.1 != k) = (m, b) :: es.filter (·.1 != k) := by
        simp [Ne.symm hm]
      rw [hkeep]
      exact ((ih hnodup.2 h).cons _).trans (.swap _ _ _)

end SchemaStructs
