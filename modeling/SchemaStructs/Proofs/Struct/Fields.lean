import SchemaStructs.Struct.Basic

set_option autoImplicit false

namespace SchemaStructs

namespace FieldType

variable {ρ σ τ : Type}

@[simp] theorem map_id (t : FieldType ρ) : t.map id = t := by
  induction t with
  | array _ ih | nullable _ ih => simp only [map, ih]
  | _ => rfl

@[simp] theorem map_map (f : ρ → σ) (g : σ → τ) (t : FieldType ρ) :
    (t.map f).map g = t.map (g ∘ f) := by
  induction t with
  | array _ ih | nullable _ ih => simp only [map, ih]
  | _ => rfl

@[simp] theorem ref?_map (f : ρ → σ) (t : FieldType ρ) : (t.map f).ref? = t.ref?.map f := by
  induction t with
  | array _ ih | nullable _ ih => exact ih
  | _ => rfl

/-- The type with its reference left open. -/
def shape (t : FieldType ρ) : FieldType Unit := t.map fun _ => ()

@[simp] theorem shape_map (f : ρ → σ) (t : FieldType ρ) : (t.map f).shape = t.shape := map_map f _ t

theorem eq_iff {t u : FieldType ρ} : t = u ↔ t.shape = u.shape ∧ t.ref? = u.ref? := by
  constructor
  · rintro rfl
    exact ⟨rfl, rfl⟩
  · rintro ⟨hshape, href⟩
    induction t generalizing u with
    | array t ih | nullable t ih =>
      cases u <;> simp only [shape, map, reduceCtorEq] at hshape
      simp only [array.injEq, nullable.injEq] at hshape ⊢
      exact ih hshape href
    | struct r =>
      cases u <;> simp only [shape, map, reduceCtorEq] at hshape
      simpa [ref?] using href
    | _ => cases u <;> simp_all [shape, map]

@[simp] theorem isSome_ref?_shape (t : FieldType ρ) : t.shape.ref?.isSome = t.ref?.isSome := by
  rw [shape, ref?_map, Option.isSome_map]

end FieldType

def shapes (fields : List Field) : List (Member (FieldType Unit)) :=
  fields.map fun field => field.map FieldType.shape

def refAt (fields : List Field) (k : Nat) : Option String := fields[k]?.bind (·.type.ref?)

theorem exists_refAt_iff {fields : List Field} {name : String} :
    (∃ k, refAt fields k = some name) ↔ ∃ field ∈ fields, field.type.ref? = some name := by
  simp only [refAt, Option.bind_eq_some_iff, List.mem_iff_getElem?]
  constructor
  · rintro ⟨k, field, hk, href⟩
    exact ⟨field, ⟨k, hk⟩, href⟩
  · rintro ⟨field, ⟨k, hk⟩, href⟩
    exact ⟨k, field, hk, href⟩

theorem Struct.mem_dependencies {s : Struct} {name : String} :
    name ∈ s.dependencies ↔ ∃ k, refAt s.fields k = some name := by
  simp only [dependencies, List.mem_eraseDups, List.mem_filterMap, exists_refAt_iff]

@[simp] theorem rename_id (fields : List Field) : fields.map (Field.rename id) = fields := by
  refine (List.map_congr_left fun field _ => ?_).trans (List.map_id fields)
  simp [Field.rename, Member.map]

@[simp] theorem shapes_rename (f : String → String) (fields : List Field) :
    shapes (fields.map (Field.rename f)) = shapes fields := by
  simp only [shapes, List.map_map]
  refine List.map_congr_left fun field _ => ?_
  simp [Field.rename, Member.map]

@[simp] theorem refAt_rename (f : String → String) (fields : List Field) (k : Nat) :
    refAt (fields.map (Field.rename f)) k = (refAt fields k).map f := by
  simp only [refAt, List.getElem?_map]
  cases fields[k]? with
  | none => rfl
  | some field => exact FieldType.ref?_map f field.type

theorem isSome_refAt_of_shapes {fs gs : List Field} (h : shapes fs = shapes gs) (k : Nat) :
    (refAt fs k).isSome = (refAt gs k).isSome := by
  have hk : (shapes fs)[k]? = (shapes gs)[k]? := by rw [h]
  simp only [shapes, List.getElem?_map] at hk
  simp only [refAt]
  cases hf : fs[k]? <;> cases hg : gs[k]? <;> simp only [hf, hg, Option.map_none, Option.map_some,
    reduceCtorEq, Option.some.injEq, Member.map, Member.mk.injEq] at hk
  · rfl
  · simp only [Option.bind_some]
    rw [← FieldType.isSome_ref?_shape, hk.2.1, FieldType.isSome_ref?_shape]

theorem fields_eq_iff {fs gs : List Field} :
    fs = gs ↔ shapes fs = shapes gs ∧ ∀ k, refAt fs k = refAt gs k := by
  constructor
  · rintro rfl
    exact ⟨rfl, fun _ => rfl⟩
  · rintro ⟨hshapes, hrefs⟩
    induction fs generalizing gs with
    | nil =>
      cases gs with
      | nil => rfl
      | cons => simp [shapes] at hshapes
    | cons f fs ih =>
      cases gs with
      | nil => simp [shapes] at hshapes
      | cons g gs =>
        simp only [shapes, List.map_cons, List.cons.injEq, Member.map, Member.mk.injEq] at hshapes
        obtain ⟨⟨hname, hshape, hoptional⟩, hrest⟩ := hshapes
        have htype : f.type = g.type := FieldType.eq_iff.2 ⟨hshape, hrefs 0⟩
        have htail := ih hrest fun k => hrefs (k + 1)
        obtain ⟨_, _, _⟩ := f
        obtain ⟨_, _, _⟩ := g
        simp_all

end SchemaStructs
