set_option autoImplicit false

namespace SchemaStructs

structure NameMap (α : Type) where
  entries : List (String × α)
  sorted : entries.Pairwise (fun a b => a.1 < b.1)

namespace NameMap

variable {α : Type}

protected def empty : NameMap α := ⟨[], .nil⟩

def names (m : NameMap α) : List String := m.entries.map (·.1)

def get? (m : NameMap α) (name : String) : Option α := m.entries.lookup name

def contains (m : NameMap α) (name : String) : Bool := m.names.contains name

def put (name : String) (v : α) : List (String × α) → List (String × α)
  | [] => [(name, v)]
  | e :: es =>
    if name < e.1 then (name, v) :: e :: es
    else if name = e.1 then (name, v) :: es
    else e :: put name v es

theorem of_mem_put {name : String} {v : α} {es : List (String × α)} {e : String × α}
    (h : e ∈ put name v es) : e = (name, v) ∨ e ∈ es := by
  induction es with
  | nil => simp_all [put]
  | cons d ds ih =>
    simp only [put] at h
    split at h
    · simpa using h
    · split at h
      · rcases List.mem_cons.1 h with h | h
        · exact .inl h
        · exact .inr (List.mem_cons_of_mem _ h)
      · rcases List.mem_cons.1 h with h | h
        · exact .inr (h ▸ List.mem_cons_self)
        · exact (ih h).imp_right (List.mem_cons_of_mem _)

theorem lt_of_not_lt_of_ne {a b : String} (h : ¬ a < b) (hne : a ≠ b) : b < a :=
  Classical.byContradiction fun h' => hne (Std.Trichotomous.trichotomous (r := (· < ·)) a b h h')

theorem put_sorted {name : String} {v : α} {es : List (String × α)}
    (h : es.Pairwise (fun a b => a.1 < b.1)) :
    (put name v es).Pairwise (fun a b => a.1 < b.1) := by
  induction es with
  | nil => exact List.pairwise_singleton _ _
  | cons e es ih =>
    obtain ⟨he, hes⟩ := List.pairwise_cons.1 h
    simp only [put]
    split
    · next hlt =>
      refine List.pairwise_cons.2 ⟨fun d hd => ?_, h⟩
      rcases List.mem_cons.1 hd with rfl | hd
      · exact hlt
      · exact String.lt_trans hlt (he d hd)
    · next hlt =>
      split
      · next heq => exact List.pairwise_cons.2 ⟨fun d hd => by rw [heq]; exact he d hd, hes⟩
      · next hne =>
        refine List.pairwise_cons.2 ⟨fun d hd => ?_, ih hes⟩
        rcases of_mem_put hd with rfl | hd
        · exact lt_of_not_lt_of_ne hlt hne
        · exact he d hd

def insert (m : NameMap α) (name : String) (v : α) : NameMap α :=
  ⟨put name v m.entries, put_sorted m.sorted⟩

/-- The last binding of a name holds. -/
def ofList (bindings : List (String × α)) : NameMap α :=
  bindings.foldl (fun m e => m.insert e.1 e.2) .empty

end NameMap

end SchemaStructs
