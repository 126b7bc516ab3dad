import Mathlib.Data.List.Nodup
import SchemaStructs.Proofs.Struct.Fields
import SchemaStructs.Struct.Merge

/-!
What a struct is apart from names: the tree that comes of putting, for every reference, the struct
that it names, again and again. A path through the tree is a list of field positions, and at the
end of a path stand the fields that it leads to.
-/

set_option autoImplicit false

namespace SchemaStructs

def structNamed (structs : List Struct) (name : String) : Option Struct :=
  structs.find? (·.name == name)

/-- What the fields unfold to at the end of a path, if the path goes through. -/
def unfolding (structs : List Struct) :
    List Nat → List Field → Option (List (Member (FieldType Unit)))
  | [], fields => some (shapes fields)
  | k :: path, fields => do
    let name ← refAt fields k
    let struct ← structNamed structs name
    unfolding structs path struct.fields

/-- No name comes twice, and every reference has a struct. -/
structure Linked (structs : List Struct) : Prop where
  distinct : (structs.map (·.name)).Nodup
  closed : ∀ s ∈ structs, ∀ k name, refAt s.fields k = some name →
    name ∈ structs.map (·.name)

namespace Linked

variable {structs : List Struct}

theorem eq_of_name (h : Linked structs) {s t : Struct} (hs : s ∈ structs) (ht : t ∈ structs)
    (hname : s.name = t.name) : s = t := List.inj_on_of_nodup_map h.distinct hs ht hname

theorem structNamed_eq (h : Linked structs) {s : Struct} (hs : s ∈ structs) :
    structNamed structs s.name = some s := by
  cases hfind : structNamed structs s.name with
  | none => simpa using List.find?_eq_none.1 hfind s hs
  | some t =>
    have ht : t ∈ structs := List.mem_of_find?_eq_some hfind
    have hname : t.name = s.name := by simpa using List.find?_some hfind
    rw [h.eq_of_name ht hs hname]

theorem exists_structNamed (h : Linked structs) {s : Struct} (hs : s ∈ structs) {k : Nat}
    {name : String} (hk : refAt s.fields k = some name) :
    ∃ t ∈ structs, t.name = name ∧ structNamed structs name = some t := by
  obtain ⟨t, ht, rfl⟩ := List.mem_map.1 (h.closed s hs k name hk)
  exact ⟨t, ht, rfl, h.structNamed_eq ht⟩

/-- Structs that unfold alike have fields of one shape and refer to structs that unfold alike. -/
theorem refs_alike (h : Linked structs) {s t : Struct} (hs : s ∈ structs) (ht : t ∈ structs)
    (halike : ∀ path, unfolding structs path s.fields = unfolding structs path t.fields) :
    shapes s.fields = shapes t.fields ∧ ∀ k,
      refAt s.fields k = none ∧ refAt t.fields k = none ∨
        ∃ u ∈ structs, ∃ v ∈ structs, refAt s.fields k = some u.name ∧
          refAt t.fields k = some v.name ∧
            ∀ path, unfolding structs path u.fields = unfolding structs path v.fields := by
  have hshapes : shapes s.fields = shapes t.fields := by simpa [unfolding] using halike []
  refine ⟨hshapes, fun k => ?_⟩
  have hsome := isSome_refAt_of_shapes hshapes k
  cases hsk : refAt s.fields k with
  | none => cases htk : refAt t.fields k <;> simp [hsk, htk] at hsome ⊢
  | some a =>
    cases htk : refAt t.fields k with
    | none => simp [hsk, htk] at hsome
    | some b =>
      obtain ⟨u, hu, rfl, hfindu⟩ := h.exists_structNamed hs hsk
      obtain ⟨v, hv, rfl, hfindv⟩ := h.exists_structNamed ht htk
      refine .inr ⟨u, hu, v, hv, rfl, rfl, fun path => ?_⟩
      simpa [unfolding, hsk, htk, hfindu, hfindv] using halike (k :: path)

end Linked

end SchemaStructs
