import Mathlib.Logic.Relation
import SchemaStructs.Alias.Representable
import SchemaStructs.Proofs.Lookup

set_option autoImplicit false

namespace SchemaStructs

open Relation

def Reference.any (_ : Reference) : Bool := true

def Refers (aliases : Aliases) (keep : Reference → Bool) (a b : String) : Prop :=
  ∃ body, aliases.lookup a = some body ∧ ∃ r ∈ body.references, keep r = true ∧ r.target = b

/-- From an alias that the type mentions kept references lead to `name`. -/
def Reaches (aliases : Aliases) (keep : Reference → Bool) (t : SchemaType) (name : String) :
    Prop :=
  ∃ root ∈ t.targets, ReflTransGen (Refers aliases keep) root name

/-- Kept references lead from `name` back to it. -/
def OnCycle (aliases : Aliases) (keep : Reference → Bool) (name : String) : Prop :=
  TransGen (Refers aliases keep) name name

theorem Reaches.tail {aliases : Aliases} {keep : Reference → Bool} {t : SchemaType}
    {a b : String} (h : Reaches aliases keep t a) (hab : Refers aliases keep a b) :
    Reaches aliases keep t b := by
  obtain ⟨root, hroot, path⟩ := h
  exact ⟨root, hroot, path.tail hab⟩

section

variable {aliases : Aliases} {keep : Reference → Bool}

theorem Refers.any {a b : String} (h : Refers aliases keep a b) :
    Refers aliases Reference.any a b := by
  obtain ⟨body, hbody, r, hr, -, htarget⟩ := h
  exact ⟨body, hbody, r, hr, rfl, htarget⟩

theorem Reaches.any {t : SchemaType} {n : String} (h : Reaches aliases keep t n) :
    Reaches aliases Reference.any t n := by
  obtain ⟨root, hroot, path⟩ := h
  exact ⟨root, hroot, path.lift id fun _ _ => Refers.any⟩

theorem OnCycle.any {n : String} (h : OnCycle aliases keep n) :
    OnCycle aliases Reference.any n := h.lift id fun _ _ => Refers.any

end

theorem SchemaType.mem_targets {t : SchemaType} {n : String} :
    n ∈ t.targets ↔ ∃ r ∈ t.references, r.target = n := by
  simp [SchemaType.targets]

theorem Reaches.trans {aliases : Aliases} {t body : SchemaType} {m n : String}
    (h : Reaches aliases Reference.any t m) (hbody : aliases.lookup m = some body)
    (hn : Reaches aliases Reference.any body n) : Reaches aliases Reference.any t n := by
  obtain ⟨root, hroot, path⟩ := h
  obtain ⟨next, hnext, path'⟩ := hn
  obtain ⟨r, hr, rfl⟩ := SchemaType.mem_targets.1 hnext
  exact ⟨root, hroot, (path.tail ⟨body, hbody, r, hr, rfl, rfl⟩).trans path'⟩

@[simp] theorem targets_array (t : SchemaType) : (SchemaType.array t).targets = t.targets := by
  simp [SchemaType.targets, SchemaType.references, Reference.underArray, Function.comp_def]

@[simp] theorem targets_nullable (t : SchemaType) :
    (SchemaType.nullable t).targets = t.targets := by
  simp [SchemaType.targets, SchemaType.references, Reference.underNullable, Function.comp_def]

@[simp] theorem targets_object (ps : List Property) :
    (SchemaType.object ps).targets = ps.flatMap (·.type.targets) := by
  simp only [SchemaType.targets, SchemaType.references]
  induction ps with
  | nil => rfl
  | cons p ps ih =>
    simp [Property.references, ih, Reference.underProperty, Function.comp_def]

/-- Along any cycle one can go round for ever, so no well-founded part of the graph has one. -/
theorem not_onCycle_of_acc {aliases : Aliases} {keep : Reference → Bool} {n : String}
    (h : Acc (fun b a => Refers aliases keep a b) n) : ¬ OnCycle aliases keep n := by
  induction h with
  | intro n _ ih =>
    intro hn
    obtain ⟨b, hnb, hbn⟩ := TransGen.head'_iff.1 hn
    exact ih b hnb (TransGen.tail' hbn hnb)

def Closed (g : Aliases) : Prop := ∀ e ∈ g, ∀ n ∈ e.2.targets, n ∈ g.map (·.1)

/-- A part of the aliases that holds with each alias those that its definition mentions. -/
structure ClosedPart (aliases g : Aliases) : Prop where
  agrees : ∀ e ∈ g, aliases.lookup e.1 = some e.2
  closed : Closed g

namespace ClosedPart

variable {aliases g : Aliases}

theorem lookup_eq (h : ClosedPart aliases g) {n : String} (hn : n ∈ g.map (·.1)) :
    g.lookup n = aliases.lookup n := by
  obtain ⟨body, hbody⟩ := exists_lookup_of_mem hn
  rw [hbody, h.agrees _ (mem_of_lookup hbody)]

theorem lookup_mono (h : ClosedPart aliases g) {n : String} {body : SchemaType}
    (hn : g.lookup n = some body) : aliases.lookup n = some body :=
  h.agrees _ (mem_of_lookup hn)

theorem mem_of_refers (h : ClosedPart aliases g) {keep : Reference → Bool} {a b : String}
    (hab : Refers g keep a b) : b ∈ g.map (·.1) := by
  obtain ⟨body, hbody, r, hr, -, rfl⟩ := hab
  exact h.closed _ (mem_of_lookup hbody) _ (SchemaType.mem_targets.2 ⟨r, hr, rfl⟩)

theorem refers_iff (h : ClosedPart aliases g) {keep : Reference → Bool} {a b : String}
    (ha : a ∈ g.map (·.1)) : Refers g keep a b ↔ Refers aliases keep a b := by
  simp only [Refers, h.lookup_eq ha]

theorem refers_mono (h : ClosedPart aliases g) {keep : Reference → Bool} {a b : String}
    (hab : Refers g keep a b) : Refers aliases keep a b := by
  obtain ⟨body, hbody, rest⟩ := hab
  exact ⟨body, h.lookup_mono hbody, rest⟩

theorem mem_of_path (h : ClosedPart aliases g) {keep : Reference → Bool} {a b : String}
    (ha : a ∈ g.map (·.1)) (path : ReflTransGen (Refers g keep) a b) : b ∈ g.map (·.1) := by
  cases path with
  | refl => exact ha
  | tail _ hcb => exact h.mem_of_refers hcb

theorem path_iff (h : ClosedPart aliases g) {keep : Reference → Bool} {a b : String}
    (ha : a ∈ g.map (·.1)) :
    ReflTransGen (Refers g keep) a b ↔ ReflTransGen (Refers aliases keep) a b := by
  constructor
  · exact fun path => path.lift id fun _ _ => h.refers_mono
  · intro path
    induction path with
    | refl => exact .refl
    | tail _ hcd ih => exact ih.tail ((h.refers_iff (h.mem_of_path ha ih)).2 hcd)

theorem onCycle_iff (h : ClosedPart aliases g) {keep : Reference → Bool} {a : String}
    (ha : a ∈ g.map (·.1)) : OnCycle g keep a ↔ OnCycle aliases keep a := by
  simp only [OnCycle, TransGen.head'_iff]
  constructor
  · rintro ⟨b, hab, hba⟩
    exact ⟨b, h.refers_mono hab, hba.lift id fun _ _ => h.refers_mono⟩
  · rintro ⟨b, hab, hba⟩
    have hab' := (h.refers_iff ha).2 hab
    exact ⟨b, hab', (h.path_iff (h.mem_of_refers hab')).2 hba⟩

end ClosedPart

end SchemaStructs
