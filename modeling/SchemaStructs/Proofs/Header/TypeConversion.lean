import Mathlib.Tactic.Choose
import SchemaStructs.Proofs.Header.Conformance
import SchemaStructs.Proofs.Header.Denotation

set_option autoImplicit false

namespace SchemaStructs

variable {ν : Type}

instance : Inhabited (Value ν) := ⟨.nothing⟩

/-- A value that conforms is read, written as its declared part, and read the same from that part;
any other is refused by a check. -/
inductive Converts (structs : List Struct) (read : Dynamic ν → Except Refusal (Value ν))
    (write : Value ν → Except Refusal (Dynamic ν)) (t : FieldType String) (d : Dynamic ν) : Prop
  | accepted (v : Value ν) (conforms : Conforms structs t d) (reads : read d = .ok v)
      (writes : write v = .ok (d.declared structs t))
      (rereads : read (d.declared structs t) = .ok v)
  | refused (e : Refusal) (unfit : ¬ Conforms structs t d) (reads : read d = .error e)
      (thrown : e ≠ .undefined)

section

variable {structs : List Struct} {call : String → Dynamic ν → Except Refusal (Value ν)}
  {send : Value ν → Except Refusal (Dynamic ν)} {names : Names}

theorem converts_array {t : FieldType String} {element : CppType} {items : List (Dynamic ν)}
    (h : ∀ d ∈ items, Converts structs (element.read call names) (element.write send) t d) :
    Converts structs ((CppType.vector element).read call names)
      ((CppType.vector element).write send) (.array t) (.array items) := by
  have hread : ∀ ds : List (Dynamic ν),
      (CppType.vector element).read call names (.array ds) = (do
        return .list (← ds.mapM (element.read call names))) := fun ds => rfl
  -- The items are read one by one, and the first that is refused is what the list is refused for.
  by_cases hall : ∀ d ∈ items, Conforms structs t d
  · have hvalue : ∀ d ∈ items, ∃ v, element.read call names d = .ok v ∧
        element.write send v = .ok (d.declared structs t) ∧
        element.read call names (d.declared structs t) = .ok v := by
      intro d hd
      rcases h d hd with ⟨v, -, reads, writes, rereads⟩ | ⟨e, unfit, -⟩
      · exact ⟨v, reads, writes, rereads⟩
      · exact absurd (hall d hd) unfit
    choose! value hreads hwrites hrereads using hvalue
    refine .accepted (.list (items.map value)) (.array hall) ?_ ?_ ?_
    · rw [hread, mapM_eq_ok_map hreads]
      rfl
    · have hmap : (items.map value).mapM (element.write send) =
          .ok (items.map (·.declared structs t)) := by
        rw [List.mapM_map]
        exact mapM_eq_ok_map hwrites
      rw [Dynamic.declared_array, CppType.write, hmap]
      rfl
    · have hmap : (items.map (·.declared structs t)).mapM (element.read call names) =
          .ok (items.map value) := by
        rw [List.mapM_map]
        exact mapM_eq_ok_map hrereads
      rw [Dynamic.declared_array, hread, hmap]
      rfl
  · cases hmap : items.mapM (element.read call names) with
    | ok vs =>
      refine absurd (fun d hd => ?_) hall
      obtain ⟨v, hv⟩ := mapM_eq_ok_iff.1 ⟨vs, hmap⟩ d hd
      rcases h d hd with ⟨_, conforms, -⟩ | ⟨e, -, he, -⟩
      · exact conforms
      · rw [he] at hv
        cases hv
    | error e =>
      refine .refused e ?_ (by rw [hread, hmap]; rfl) ?_
      · rintro ⟨⟩
        exact hall ‹_›
      · obtain ⟨d, hd, he⟩ := exists_error_of_mapM hmap
        rcases h d hd with ⟨v, -, hv⟩ | ⟨e', -, he', thrown⟩
        · rw [hv] at he
          cases he
        · rw [he', Except.error.injEq] at he
          exact he ▸ thrown

theorem converts_nullable {t : FieldType String} {inner : CppType} {d : Dynamic ν}
    (h : Converts structs (inner.read call names) (inner.write send) t d) :
    Converts structs ((CppType.optional inner).read call names)
      ((CppType.optional inner).write send) (.nullable t) d := by
  cases hnull : d.isNull with
  | true =>
    cases d with
    | null => exact .accepted .nothing .null rfl rfl rfl
    | _ => cases hnull
  | false =>
    have hread : ∀ e : Dynamic ν, e.isNull = false →
        (CppType.optional inner).read call names e = (do
          return .just (← inner.read call names e)) := by
      intro e he
      simp only [CppType.read, he]
      rfl
    have hdeclared : (d.declared structs t).isNull = false := by
      simp [hnull]
    rcases h with ⟨v, conforms, reads, writes, rereads⟩ | ⟨e, unfit, reads, thrown⟩
    · refine .accepted (.just v) (.inner conforms) ?_ ?_ ?_
      · rw [hread d hnull, reads]
        rfl
      · rw [Dynamic.declared_nullable]
        exact writes
      · rw [Dynamic.declared_nullable, hread _ hdeclared, rereads]
        rfl
    · refine .refused e ?_ ?_ thrown
      · rintro (_ | _)
        · cases hnull
        · exact unfit ‹_›
      · rw [hread d hnull, reads]
        rfl

theorem converts_enum {members : List String} (hnul : ∀ m ∈ members, NulFree m)
    (d : Dynamic ν) : Converts structs ((CppType.enum members).read call names)
      ((CppType.enum members).write send) (.enum members) d := by
  cases d with
  | string text =>
    have hany : members.any (text == cString ·) = members.contains text := by
      rw [Bool.eq_iff_iff]
      simp only [List.any_eq_true, List.contains_eq_mem, decide_eq_true_eq, beq_iff_eq]
      constructor
      · rintro ⟨m, hm, rfl⟩
        rwa [cString_eq (hnul m hm)]
      · intro hmem
        exact ⟨text, hmem, (cString_eq (hnul text hmem)).symm⟩
    have hread : (CppType.enum members).read call names (.string text) =
        if members.contains text then .ok (.text text)
        else Dynamic.mismatch names "enum member" := by
      rw [← hany]
      simp only [CppType.read, Dynamic.expectOneOf, Dynamic.expectString, ok_bind]
      cases members.any (text == cString ·) <;> rfl
    cases hmem : members.contains text with
    | true =>
      rw [hmem] at hread
      exact .accepted (.text text) (.enum (by simpa using hmem)) hread rfl hread
    | false =>
      rw [hmem] at hread
      refine .refused _ ?_ hread (by rintro ⟨⟩)
      rintro (_ | _ | _ | _ | hin)
      simp [hin] at hmem
  | _ => exact .refused _ (by rintro ⟨⟩) rfl (by rintro ⟨⟩)

theorem converts_shared {name : String} {d : Dynamic ν}
    (h : Converts structs (call name) send (.struct name) d) :
    Converts structs ((CppType.shared name).read call names)
      ((CppType.shared name).write send) (.struct name) d := by
  have hread : ∀ e : Dynamic ν, (CppType.shared name).read call names e = (do
      return .just (← call name e)) := fun e => rfl
  rcases h with ⟨v, conforms, reads, writes, rereads⟩ | ⟨e, unfit, reads, thrown⟩
  · refine .accepted (.just v) conforms ?_ writes ?_
    · rw [hread, reads]
      rfl
    · rw [hread, rereads]
      rfl
  · refine .refused e unfit ?_ thrown
    rw [hread, reads]
    rfl

theorem converts_ofFieldType {isComplete : String → Bool} (t : FieldType String)
    (hnul : ∀ m ∈ t.enumMembers, NulFree m) {inVector : Bool} {d : Dynamic ν}
    (hcall : ∀ name, t.ref? = some name → ∀ e : Dynamic ν, e.depth ≤ d.depth →
      Converts structs (call name) send (.struct name) e) :
    Converts structs ((CppType.ofFieldType isComplete inVector t).read call names)
      ((CppType.ofFieldType isComplete inVector t).write send) t d := by
  induction t generalizing inVector d with
  | bool =>
    cases d with
    | bool b => exact .accepted (.bool b) (.bool b) rfl rfl rfl
    | _ => exact .refused _ (by rintro ⟨⟩) rfl (by rintro ⟨⟩)
  | number =>
    cases d with
    | number n => exact .accepted (.number n) (.number n) rfl rfl rfl
    | _ => exact .refused _ (by rintro ⟨⟩) rfl (by rintro ⟨⟩)
  | string =>
    cases d with
    | string text => exact .accepted (.text text) (.string text) rfl rfl rfl
    | _ => exact .refused _ (by rintro ⟨⟩) rfl (by rintro ⟨⟩)
  | generic =>
    have hdeclared : d.declared structs .generic = d := Dynamic.declared_generic d
    exact .accepted (.dynamic d) (.generic d) rfl (by rw [hdeclared]; rfl) (by rw [hdeclared]; rfl)
  | enum members => exact converts_enum hnul d
  | array t ih =>
    cases d with
    | array items =>
      refine converts_array fun e he => ih hnul fun name href e' he' => ?_
      exact hcall name href e' (Nat.le_trans he' (Nat.le_of_lt (Dynamic.depth_lt_of_mem he)))
    | _ => exact .refused _ (by rintro ⟨⟩) rfl (by rintro ⟨⟩)
  | nullable t ih => exact converts_nullable (ih hnul hcall)
  | struct name =>
    have h := hcall name rfl d (Nat.le_refl _)
    rw [CppType.ofFieldType]
    split
    · simp only [CppType.write]
      exact h
    · exact converts_shared h

end

end SchemaStructs
