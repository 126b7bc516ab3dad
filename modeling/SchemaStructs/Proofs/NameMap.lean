import SchemaStructs.NameMap

set_option autoImplicit false

namespace SchemaStructs.NameMap

variable {α : Type}

theorem put_of_forall_lt {name : String} {v : α} {es : List (String × α)}
    (h : ∀ e ∈ es, e.1 < name) : put name v es = es ++ [(name, v)] := by
  induction es with
  | nil => rfl
  | cons e es ih =>
    rw [List.forall_mem_cons] at h
    have hlt : ¬ name < e.1 := fun hlt => String.lt_irrefl _ (String.lt_trans h.1 hlt)
    have hne : name ≠ e.1 := by
      rintro rfl
      exact String.lt_irrefl _ h.1
    simp only [put, hlt, hne, if_false, ih h.2, List.cons_append]

theorem ext_entries {m m' : NameMap α} (h : m.entries = m'.entries) : m = m' := by
  cases m
  cases m'
  cases h
  rfl

theorem entries_foldl_insert {es : List (String × α)} {m : NameMap α}
    (h : (m.entries ++ es).Pairwise (fun a b => a.1 < b.1)) :
    (es.foldl (fun m e => m.insert e.1 e.2) m).entries = m.entries ++ es := by
  induction es generalizing m with
  | nil => simp
  | cons e es ih =>
    have hbefore : ∀ d ∈ m.entries, d.1 < e.1 := fun d hd =>
      (List.pairwise_append.1 h).2.2 d hd e List.mem_cons_self
    have hput : (m.insert e.1 e.2).entries = m.entries ++ [e] := put_of_forall_lt hbefore
    have hsplit : m.entries ++ e :: es = (m.insert e.1 e.2).entries ++ es := by simp [hput]
    rw [hsplit] at h ⊢
    exact ih h

@[simp] theorem ofList_entries (m : NameMap α) : ofList m.entries = m :=
  ext_entries (by simpa [ofList, NameMap.empty] using
    entries_foldl_insert (m := NameMap.empty) m.sorted)

end SchemaStructs.NameMap
