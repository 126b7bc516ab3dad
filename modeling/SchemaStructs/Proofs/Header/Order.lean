import SchemaStructs.Proofs.Header.Emission
import SchemaStructs.Proofs.Struct.Order
import SchemaStructs.Proofs.Struct.Recursion

set_option autoImplicit false

namespace SchemaStructs

open Relation

inductive Holding where
  | value
  /-- As the element of a vector, which may be incomplete. -/
  | element
  | shared
  deriving DecidableEq, Repr

def CppType.holding? : CppType → Option (Holding × String)
  | .struct name => some (.value, name)
  | .shared name => some (.shared, name)
  | .vector (.struct name) => some (.element, name)
  | .vector element => element.holding?
  | .optional inner => inner.holding?
  | _ => none

def holdings (structs : List Struct) (s : Struct) : List (Holding × String) :=
  match CppStruct.ofStruct structs s with
  | .ok c => c.members.filterMap (·.type.holding?)
  | .error _ => []

/-- What is held by value is complete, and what is shared is not. -/
def Holding.Fits (isComplete : Bool) : Holding → Prop
  | .value => isComplete = true
  | .shared => isComplete = false
  | .element => True

namespace CppType

variable {isComplete : String → Bool}

theorem holding?_vector {t : CppType} (h : ∀ name, t ≠ .struct name) :
    (CppType.vector t).holding? = t.holding? := by
  cases t with
  | struct name => exact absurd rfl (h name)
  | _ => rfl

theorem holding?_ofFieldType (t : FieldType String) :
    (ofFieldType isComplete false t).holding?.map (·.2) = t.ref? ∧
      ∀ how name, (ofFieldType isComplete false t).holding? = some (how, name) →
        how.Fits (isComplete name) := by
  induction t with
  | bool | number | string | generic | enum => simp [ofFieldType, holding?, FieldType.ref?]
  | nullable t ih => exact ih
  | struct name =>
    cases hname : isComplete name <;>
      simp [ofFieldType, holding?, FieldType.ref?, Holding.Fits, hname]
  | array t ih =>
    cases t with
    | struct name => simp [ofFieldType, holding?, FieldType.ref?, Holding.Fits]
    | _ => simpa [ofFieldType, FieldType.ref?, holding?_vector] using ih

theorem holding?_ofField (f : Field) :
    (ofField isComplete f).holding?.map (·.2) = f.type.ref? ∧
      ∀ how name, (ofField isComplete f).holding? = some (how, name) →
        how.Fits (isComplete name) := by
  unfold ofField
  split
  · exact holding?_ofFieldType f.type
  · exact holding?_ofFieldType f.type

end CppType

section

variable {structs before after : List Struct} {s : Struct}

theorem completeAt_split (hlinked : Linked structs) (hsplit : structs = before ++ s :: after) :
    completeAt structs s = before.map (·.name) := by
  have hdistinct := hlinked.distinct
  rw [hsplit, List.map_append, List.map_cons] at hdistinct
  have hbefore : ∀ name ∈ before.map (·.name), (name != s.name) = true := by
    intro name hmem
    rw [bne_iff_ne]
    rintro rfl
    exact (List.nodup_append.1 hdistinct).2.2 _ hmem _ List.mem_cons_self rfl
  rw [completeAt, hsplit, List.map_append, List.map_cons, List.takeWhile_append_of_pos hbefore]
  simp

theorem holdings_eq (hlinked : Linked structs) (hs : s ∈ structs) :
    holdings structs s = s.fields.filterMap fun f =>
      (CppType.ofField ((completeAt structs s).contains ·) f).holding? := by
  have hzip : (s.fields.zip (s.idents structs)).map (·.1) = s.fields := by
    rw [List.map_fst_zip]
    simp
  simp only [holdings, ofStruct_eq hlinked hs, Struct.toCpp, List.filterMap_map]
  conv_rhs => rw [← hzip, List.filterMap_map]
  rfl

/-- Every reference is held, by value only if its struct is complete, and shared only if not. -/
theorem holdings_refs (hlinked : Linked structs) (hs : s ∈ structs) :
    (holdings structs s).map (·.2) = s.fields.filterMap (·.type.ref?) ∧
      ∀ how name, (how, name) ∈ holdings structs s →
        how.Fits ((completeAt structs s).contains name) := by
  rw [holdings_eq hlinked hs]
  constructor
  · rw [List.map_filterMap]
    exact List.filterMap_congr fun f _ => (CppType.holding?_ofField f).1
  · intro how name hmem
    obtain ⟨f, -, hf⟩ := List.mem_filterMap.1 hmem
    exact (CppType.holding?_ofField f).2 how name hf

end

theorem idxOf_lt_of_mem_takeWhile {names : List String} {a b : String}
    (h : b ∈ names.takeWhile (· != a)) : names.idxOf b < names.idxOf a := by
  induction names with
  | nil => simp at h
  | cons n names ih =>
    by_cases hn : n = a
    · simp [hn] at h
    · rw [List.takeWhile_cons_of_pos (by simpa using hn)] at h
      rw [List.idxOf_cons_ne _ hn]
      rcases List.mem_cons.1 h with rfl | h
      · simp
      · by_cases hb : n = b
        · simp [hb]
        · rw [List.idxOf_cons_ne _ hb]
          exact Nat.succ_lt_succ (ih h)

/-- What leads from each name to names before it only does not lead back. -/
theorem acyclic_of_earlier (names : List String) {r : String → String → Prop}
    (h : ∀ a b, r a b → b ∈ names.takeWhile (· != a)) (n : String) : ¬ TransGen r n n := by
  have hlt : ∀ {b}, TransGen r n b → names.idxOf b < names.idxOf n := by
    intro b path
    induction path with
    | single hab => exact idxOf_lt_of_mem_takeWhile (h _ _ hab)
    | tail _ hbc ih => exact Nat.lt_trans (idxOf_lt_of_mem_takeWhile (h _ _ hbc)) ih
  exact fun hcycle => Nat.lt_irrefl _ (hlt hcycle)

variable {moduleName : String} {aliases : Aliases} {methods : List Method}
  {structs : List Struct} {s : Struct}

/-- A reference leads to an earlier struct, or to one that leads back; then the schema is
recursive. -/
theorem refAt_earlier_or_circles (h : collect moduleName aliases methods = .ok structs)
    (hs : s ∈ structs) {k : Nat} {n : String} (hk : refAt s.fields k = some n) :
    n ∈ completeAt structs s ∨
      TransGen (PointsTo structs) n s.name ∧ Recursive aliases methods := by
  have hpoints : PointsTo structs s.name n := ⟨s, hs, rfl, k, hk⟩
  have hlinked := linked_of_collect h
  obtain ⟨c, hsteps, hcomplete, rfl⟩ := exists_steps h
  obtain ⟨before, after, hsplit⟩ := List.append_of_mem hs
  obtain ⟨before', t, after', hsplit', rfl, hearlier⟩ :=
    mergeEquivalent_split hcomplete.linked hsplit
  have ht : t ∈ c.structs := hsplit' ▸ by simp
  rw [keeper_fields hcomplete.linked ht, refAt_rename, Option.map_eq_some_iff] at hk
  obtain ⟨r, hr, rfl⟩ := hk
  rw [completeAt_split hlinked hsplit]
  rcases (Steps.ordered hsteps).2 before' t after' hsplit' k r hr with hmem | hcircle
  · obtain ⟨u, hu, rfl⟩ := List.mem_map.1 hmem
    rw [← keeper_name hcomplete.linked]
    exact .inl (hearlier u hu)
  · obtain ⟨site, place, hsite, hplace, hcontains, path⟩ := hcircle
    refine .inr ⟨?_, recursive_of_circle (.head' hcontains path)⟩
    have hpath := (hcomplete.pointsTo_path path hplace hsite).lift
      (Classes.stable c.structs).classOf fun _ _ => PointsTo.merge hcomplete.linked
    rw [keeper_name hcomplete.linked] at hpoints ⊢
    rcases reflTransGen_iff_eq_or_transGen.1 hpath with heq | hpath
    · rw [heq] at hpoints ⊢
      exact .single hpoints
    · exact hpath

def HoldsByValue (structs : List Struct) (a b : String) : Prop :=
  ∃ s ∈ structs, s.name = a ∧ (.value, b) ∈ holdings structs s

/-- The structs can be declared in their order, and they hold each other by pointer only where
they lead back to themselves. -/
structure Declarable (aliases : Aliases) (methods : List Method) (structs : List Struct) :
    Prop where
  emitted : ∀ s ∈ structs, ∃ c, CppStruct.ofStruct structs s = .ok c
  /-- Every reference is held in some way. -/
  held : ∀ s ∈ structs, (holdings structs s).map (·.2) = s.fields.filterMap (·.type.ref?)
  value : ∀ before s after, structs = before ++ s :: after →
    ∀ n, (.value, n) ∈ holdings structs s → n ∈ before.map (·.name)
  acyclic : ∀ n, ¬ TransGen (HoldsByValue structs) n n
  shared : ∀ before s after, structs = before ++ s :: after →
    ∀ n, (.shared, n) ∈ holdings structs s →
      n ∈ (s :: after).map (·.name) ∧ TransGen (PointsTo structs) n s.name
  /-- Where no struct leads back to itself, each stands behind all that it refers to. -/
  plain : (∀ n, ¬ TransGen (PointsTo structs) n n) →
    ∀ before s after, structs = before ++ s :: after →
      (∀ n ∈ s.dependencies, n ∈ before.map (·.name)) ∧ ∀ n, (.shared, n) ∉ holdings structs s
  recursive : (∃ n, TransGen (PointsTo structs) n n) → Recursive aliases methods

theorem exists_refAt_of_holding (hlinked : Linked structs) (hs : s ∈ structs) {how : Holding}
    {n : String} (h : (how, n) ∈ holdings structs s) : ∃ k, refAt s.fields k = some n := by
  have hmem : n ∈ (holdings structs s).map (·.2) := List.mem_map_of_mem h
  rw [(holdings_refs hlinked hs).1] at hmem
  obtain ⟨f, hf, href⟩ := List.mem_filterMap.1 hmem
  exact exists_refAt_iff.2 ⟨f, hf, href⟩

theorem completeAt_of_value (hlinked : Linked structs) (hs : s ∈ structs) {n : String}
    (h : (.value, n) ∈ holdings structs s) : n ∈ completeAt structs s := by
  simpa [Holding.Fits] using (holdings_refs hlinked hs).2 _ _ h

theorem not_completeAt_of_shared (hlinked : Linked structs) (hs : s ∈ structs) {n : String}
    (h : (.shared, n) ∈ holdings structs s) : n ∉ completeAt structs s := by
  simpa [Holding.Fits] using (holdings_refs hlinked hs).2 _ _ h

/-- Structs come in an order in which they can be declared. -/
theorem collect_declarable (h : collect moduleName aliases methods = .ok structs) :
    Declarable aliases methods structs := by
  have hlinked := linked_of_collect h
  have hmem : ∀ {before s after}, structs = before ++ s :: after → s ∈ structs := by
    rintro before s after rfl
    simp
  refine ⟨fun s hs => ⟨_, ofStruct_eq hlinked hs⟩, fun s hs => (holdings_refs hlinked hs).1,
    fun before s after hsplit n hn => ?_, fun n => ?_, fun before s after hsplit n hn => ?_,
    fun hplain before s after hsplit => ?_, ?_⟩
  · rw [← completeAt_split hlinked hsplit]
    exact completeAt_of_value hlinked (hmem hsplit) hn
  · refine acyclic_of_earlier (structs.map (·.name)) ?_ n
    rintro a b ⟨s, hs, rfl, hn⟩
    exact completeAt_of_value hlinked hs hn
  · have hs := hmem hsplit
    obtain ⟨k, hk⟩ := exists_refAt_of_holding hlinked hs hn
    have hnot := not_completeAt_of_shared hlinked hs hn
    obtain ⟨path, -⟩ := (refAt_earlier_or_circles h hs hk).resolve_left hnot
    rw [completeAt_split hlinked hsplit] at hnot
    have hname := hlinked.closed s hs k n hk
    rw [hsplit, List.map_append, List.mem_append] at hname
    exact ⟨hname.resolve_left hnot, path⟩
  · have hs := hmem hsplit
    have hearlier : ∀ k n, refAt s.fields k = some n → n ∈ completeAt structs s := by
      intro k n hk
      refine (refAt_earlier_or_circles h hs hk).resolve_right ?_
      rintro ⟨path, -⟩
      exact hplain n (path.tail ⟨s, hs, rfl, k, hk⟩)
    constructor
    · intro n hn
      obtain ⟨k, hk⟩ := Struct.mem_dependencies.1 hn
      exact completeAt_split hlinked hsplit ▸ hearlier k n hk
    · intro n hn
      obtain ⟨k, hk⟩ := exists_refAt_of_holding hlinked hs hn
      exact not_completeAt_of_shared hlinked hs hn (hearlier k n hk)
  · -- If each reference led to an earlier struct, none could lead back.
    rintro ⟨n, hcycle⟩
    by_contra hnot
    refine acyclic_of_earlier (structs.map (·.name)) ?_ n hcycle
    rintro a b ⟨s, hs, rfl, k, hk⟩
    exact (refAt_earlier_or_circles h hs hk).resolve_right fun hcircle => hnot hcircle.2

theorem collect_declarable_mutual :
    collect "M" mutualAliases mutualMethods = .ok mutualStructs ∧
      Declarable mutualAliases mutualMethods mutualStructs ∧
      mutualStructs.map (holdings mutualStructs) = [[(.shared, "M_A")], [(.value, "M_A")]] := by
  have h : collect "M" mutualAliases mutualMethods = .ok mutualStructs := by decide +kernel
  exact ⟨h, collect_declarable h, by decide +kernel⟩

end SchemaStructs
