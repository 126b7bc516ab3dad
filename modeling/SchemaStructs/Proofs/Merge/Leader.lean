import SchemaStructs.Proofs.Lookup
import SchemaStructs.Proofs.Merge.Unfolding

/-!
Classes of structs with equal keys. The first struct with a key leads its class, and two keys that
make out equally many leaders make out the same classes if one of them is finer.
-/

set_option autoImplicit false

namespace SchemaStructs

def leader (structs : List Struct) (key : Struct → List Field) (t : Struct) : String :=
  ((structs.find? (key · == key t)).map (·.name)).getD t.name

def classesBy (structs : List Struct) (key : Struct → List Field) : Classes :=
  structs.map fun t => (t.name, leader structs key t)

/-- Structs that `key'` brings together `key` brings together. -/
def Finer (structs : List Struct) (key' key : Struct → List Field) : Prop :=
  ∀ s ∈ structs, ∀ t ∈ structs, key' s = key' t → key s = key t

section

variable {structs : List Struct} {key key' : Struct → List Field} {s t : Struct}

theorem exists_leader (key : Struct → List Field) (ht : t ∈ structs) :
    ∃ u ∈ structs, key u = key t ∧ structs.find? (key · == key t) = some u ∧
      leader structs key t = u.name := by
  cases hfind : structs.find? (key · == key t) with
  | none => simpa using List.find?_eq_none.1 hfind t ht
  | some u =>
    have hkey : key u = key t := by simpa using List.find?_some hfind
    exact ⟨u, List.mem_of_find?_eq_some hfind, hkey, rfl, by simp [leader, hfind]⟩

theorem leader_eq_of_key (ht : t ∈ structs) (h : key s = key t) :
    leader structs key s = leader structs key t := by
  obtain ⟨u, -, -, hfind, hu⟩ := exists_leader key ht
  rw [hu, leader, h, hfind]
  rfl

theorem leader_eq_iff (hlinked : Linked structs) (hs : s ∈ structs) (ht : t ∈ structs) :
    leader structs key s = leader structs key t ↔ key s = key t := by
  constructor
  · intro h
    obtain ⟨u, hu, hus, -, hsu⟩ := exists_leader key hs
    obtain ⟨v, hv, hvt, -, htv⟩ := exists_leader key ht
    have huv : u = v := hlinked.eq_of_name hu hv (by rw [← hsu, h, htv])
    rw [← hus, huv, hvt]
  · exact leader_eq_of_key ht

theorem classOf_classesBy (hlinked : Linked structs) (ht : t ∈ structs) :
    (classesBy structs key).classOf t.name = leader structs key t := by
  have hmem : (t.name, leader structs key t) ∈ classesBy structs key := List.mem_map_of_mem ht
  obtain ⟨c, hc⟩ := exists_lookup_of_mem (List.mem_map_of_mem (f := (·.1)) hmem)
  obtain ⟨u, hu, huc⟩ := List.mem_map.1 (mem_of_lookup hc)
  simp only [Prod.mk.injEq] at huc
  rw [hlinked.eq_of_name hu ht huc.1] at huc
  simp only [Classes.classOf, hc, Option.getD_some]
  exact huc.2.symm

theorem classOf_eq_self {name : String} (h : name ∉ structs.map (·.name)) :
    (classesBy structs key).classOf name = name := by
  have hnone : (classesBy structs key).lookup name = none := by
    rw [lookup_eq_none_iff_notMem]
    simpa [classesBy] using h
  simp [Classes.classOf, hnone]

theorem size_classesBy :
    (classesBy structs key).size = structs.countP fun t => t.name == leader structs key t := by
  simp only [Classes.size, classesBy, List.countP_map]
  rfl

theorem find?_eq_of_imp {α : Type} {p q : α → Bool} {l : List α} {a : α} (h : l.find? p = some a)
    (ha : q a = true) (hqp : ∀ x ∈ l, q x = true → p x = true) : l.find? q = some a := by
  induction l with
  | nil => simp at h
  | cons x l ih =>
    rw [List.find?_cons] at h ⊢
    cases hp : p x with
    | true =>
      simp only [hp, Option.some.injEq] at h
      rw [h, ha]
    | false =>
      have hq : q x = false := by
        cases hq : q x with
        | false => rfl
        | true => simp [hqp x List.mem_cons_self hq] at hp
      simp only [hp, hq] at h ⊢
      exact ih h fun y hy => hqp y (List.mem_cons_of_mem x hy)

/-- Whom two keys put together with `t` alike, they put together under one leader. -/
theorem leader_congr (ht : t ∈ structs) (h : ∀ u ∈ structs, key u = key t ↔ key' u = key' t) :
    leader structs key t = leader structs key' t := by
  obtain ⟨u, hu, hut, hfind, -⟩ := exists_leader key ht
  have hfind' : structs.find? (key' · == key' t) = some u :=
    find?_eq_of_imp hfind (by simpa using (h u hu).1 hut) fun x hx hxt => by
      simpa using (h x hx).2 (by simpa using hxt)
  simp [leader, hfind, hfind']

theorem leader_eq_self_of_finer (hlinked : Linked structs) (hfiner : Finer structs key' key)
    (ht : t ∈ structs) (h : t.name = leader structs key t) : t.name = leader structs key' t := by
  obtain ⟨u, hu, -, hfind, htu⟩ := exists_leader key ht
  have hut : u = t := hlinked.eq_of_name hu ht (by rw [← htu, ← h])
  rw [hut] at hfind
  have hfind' : structs.find? (key' · == key' t) = some t :=
    find?_eq_of_imp hfind (by simp) fun x hx hxt => by
      simpa using hfiner x hx t ht (by simpa using hxt)
  simp [leader, hfind']

theorem size_le_of_finer (hlinked : Linked structs) (hfiner : Finer structs key' key) :
    (classesBy structs key).size ≤ (classesBy structs key').size := by
  rw [size_classesBy, size_classesBy]
  refine List.countP_mono_left fun t ht h => ?_
  simpa using leader_eq_self_of_finer hlinked hfiner ht (by simpa using h)

theorem imp_of_countP_le {α : Type} {p q : α → Bool} {l : List α}
    (hpq : ∀ x ∈ l, p x = true → q x = true) (hle : l.countP q ≤ l.countP p) :
    ∀ x ∈ l, q x = true → p x = true := by
  induction l with
  | nil => simp
  | cons a l ih =>
    rw [List.forall_mem_cons] at hpq
    have hmono := List.countP_mono_left hpq.2
    rw [List.countP_cons, List.countP_cons] at hle
    rw [List.forall_mem_cons]
    cases hp : p a with
    | true =>
      simp only [hp, hpq.1 hp, if_true] at hle
      exact ⟨fun _ => rfl, ih hpq.2 (by omega)⟩
    | false =>
      cases hq : q a with
      | true =>
        simp only [hp, hq, if_true, Bool.false_eq_true, if_false] at hle
        omega
      | false =>
        simp only [hp, hq, Bool.false_eq_true, if_false] at hle
        exact ⟨by simp, ih hpq.2 (by omega)⟩

theorem finer_of_size_eq (hlinked : Linked structs) (hfiner : Finer structs key' key)
    (hsize : (classesBy structs key').size = (classesBy structs key).size) :
    Finer structs key key' := by
  rw [size_classesBy, size_classesBy] at hsize
  have hback : ∀ t ∈ structs, (t.name == leader structs key' t) = true →
      (t.name == leader structs key t) = true :=
    imp_of_countP_le (fun t ht h => by
      simpa using leader_eq_self_of_finer hlinked hfiner ht (by simpa using h))
      (Nat.le_of_eq hsize)
  have hold : ∀ t ∈ structs, t.name = leader structs key' t → t.name = leader structs key t :=
    fun t ht h => by simpa using hback t ht (by simpa using h)
  -- The structs that lead for `key'` lead for `key` as well, and there only one leads a class.
  intro s hs t ht hst
  obtain ⟨u, hu, hus, -, hsu⟩ := exists_leader key' hs
  obtain ⟨v, hv, hvt, -, htv⟩ := exists_leader key' ht
  have hleads : u.name = leader structs key u :=
    hold u hu (by rw [← hsu, leader_eq_of_key hs hus])
  have hleads' : v.name = leader structs key v :=
    hold v hv (by rw [← htv, leader_eq_of_key ht hvt])
  have huv : key u = key v := by
    rw [hfiner u hu s hs hus, hst, hfiner v hv t ht hvt]
  have heq : u = v := hlinked.eq_of_name hu hv (by
    rw [hleads, hleads', leader_eq_of_key hv huv])
  rw [← hus, heq, hvt]

theorem size_le_length (structs : List Struct) (key : Struct → List Field) :
    (classesBy structs key).size ≤ structs.length := by
  rw [size_classesBy]
  exact List.countP_le_length

end

end SchemaStructs
