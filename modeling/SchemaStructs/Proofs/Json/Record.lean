import SchemaStructs.Json.Record

/-!
What stands for a record. An object may have its keys in any order and others among them, an array
has the fields in their order, and both may leave out fields that have a default.
-/

set_option autoImplicit false

namespace SchemaStructs

theorem mapM_map_eq_some {α β γ : Type} {f : β → Option γ} {g : α → β} {h : α → γ} {xs : List α}
    (hf : ∀ x ∈ xs, f (g x) = some (h x)) : (xs.map g).mapM f = some (xs.map h) := by
  induction xs with
  | nil => rfl
  | cons x xs ih =>
    rw [List.forall_mem_cons] at hf
    simp [List.mapM_cons, hf.1, ih hf.2]

namespace Json

namespace Container

variable {α β : Type}

def map (f : α → β) : Container α → Container β
  | .items parts => .items (parts.map f)
  | .entries parts => .entries (parts.map fun e => (e.1, f e.2))

/-- The container stands for the record of the fields, each there or left out. An object has under
the key of a field just what is there, an array has all fields up to the last that is there. -/
inductive Stands : Container α → List (String × Option α) → Prop
  | entries {parts : List (String × α)} {fields : List (String × Option α)}
      (h : ∀ f ∈ fields, (parts.filter (·.1 == f.1)).map (·.2) = f.2.toList) :
      Stands (.entries parts) fields
  | items {parts : List α} {fields : List (String × Option α)} {missing : Nat}
      (h : fields.map (·.2) = parts.map some ++ List.replicate missing none) :
      Stands (.items parts) fields

theorem unique?_eq {name : String} {parts : List (String × α)} {o : Option α}
    (h : (parts.filter (·.1 == name)).map (·.2) = o.toList) : unique? name parts = some o := by
  unfold unique?
  cases o with
  | none =>
    rw [Option.toList_none, List.map_eq_nil_iff] at h
    rw [h]
  | some v =>
    rw [Option.toList_some, List.map_eq_singleton_iff] at h
    obtain ⟨e, he, rfl⟩ := h
    rw [he]

namespace Stands

variable {c : Container α} {fields : List (String × Option α)} {name : String} {v : α}

theorem fields_eq (h : c.Stands fields) :
    c.fields (fields.map (·.1)) = some (fields.map (·.2)) := by
  cases h with
  | entries h => exact mapM_map_eq_some fun f hf => unique?_eq (h f hf)
  | @items parts _ missing h =>
    have hlength : fields.length = parts.length + missing := by
      simpa using congrArg List.length h
    simp [Container.fields, h, hlength]

theorem uncons (h : c.Stands ((name, some v) :: fields)) (hnew : name ∉ fields.map (·.1)) :
    ∃ rest, c.uncons name = some (v, rest) ∧ rest.Stands fields := by
  cases h with
  | @entries parts _ h =>
    rw [List.forall_mem_cons] at h
    refine ⟨.entries (parts.filter (·.1 != name)), ?_, .entries fun f hf => ?_⟩
    · simp [Container.uncons, unique?_eq h.1]
    · have hne : f.1 ≠ name := by
        rintro rfl
        exact hnew (List.mem_map_of_mem hf)
      have hsame : ∀ e ∈ parts, (e.1 == f.1 && e.1 != name) = (e.1 == f.1) := by
        intro e _
        by_cases he : e.1 = f.1 <;> simp [he, hne]
      rw [List.filter_filter, List.filter_congr hsame]
      exact h.2 f hf
  | @items parts _ missing h =>
    cases parts with
    | nil => cases missing <;> simp [List.replicate_succ] at h
    | cons p parts =>
      simp only [List.map_cons, List.cons_append, List.cons.injEq, Option.some.injEq] at h
      exact ⟨.items parts, by rw [h.1]; rfl, .items h.2⟩

theorem map (h : c.Stands fields) (f : α → β) :
    (c.map f).Stands (fields.map fun e => (e.1, e.2.map f)) := by
  cases h with
  | @entries parts _ h =>
    refine .entries fun e he => ?_
    obtain ⟨d, hd, rfl⟩ := List.mem_map.1 he
    have hpart := congrArg (List.map f) (h d hd)
    cases hv : d.2 <;> simpa [List.filter_map, Function.comp_def, hv] using hpart
  | @items parts _ missing h =>
    have hall := congrArg (List.map (Option.map f)) h
    exact @Stands.items _ (parts.map f) _ missing (by simpa [Function.comp_def] using hall)

end Stands

end Container

def Holds (j : Json) (fields : List (String × Option Json)) : Prop :=
  ∃ c, j.container? = some c ∧ c.Stands fields

theorem Holds.fields?_eq {j : Json} {fields : List (String × Option Json)} (h : j.Holds fields) :
    j.fields? (fields.map (·.1)) = some (fields.map (·.2)) := by
  obtain ⟨c, hc, hstands⟩ := h
  simp [fields?, hc, hstands.fields_eq]

theorem filter_key_eq {entries : List (String × Json)} (h : (entries.map (·.1)).Nodup)
    {e : String × Json} (he : e ∈ entries) : entries.filter (·.1 == e.1) = [e] := by
  induction entries with
  | nil => simp at he
  | cons d entries ih =>
    obtain ⟨hnew, hrest⟩ := List.nodup_cons.1 h
    rcases List.mem_cons.1 he with rfl | he
    · have hnone : entries.filter (·.1 == e.1) = [] := List.filter_eq_nil_iff.2 fun d hd heq =>
        hnew (by simpa using ⟨d.2, (eq_of_beq heq) ▸ hd⟩)
      rw [List.filter_cons_of_pos (by simp), hnone]
    · have hne : d.1 ≠ e.1 := fun heq => hnew (List.mem_map.2 ⟨e, he, heq.symm⟩)
      rw [List.filter_cons_of_neg (by simpa using hne), ih hrest he]

/-- A record with all its fields is written as an object of them. -/
theorem holds_object {entries : List (String × Json)} (h : (entries.map (·.1)).Nodup) :
    (Json.object entries).Holds (entries.map fun e => (e.1, some e.2)) := by
  refine ⟨_, rfl, .entries fun f hf => ?_⟩
  obtain ⟨e, he, rfl⟩ := List.mem_map.1 hf
  rw [filter_key_eq h he]
  rfl

end Json

end SchemaStructs
