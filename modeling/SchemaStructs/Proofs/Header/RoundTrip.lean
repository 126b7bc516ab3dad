import SchemaStructs.Proofs.Header.Emission
import SchemaStructs.Proofs.Header.Ident
import SchemaStructs.Proofs.Header.TypeConversion
import SchemaStructs.Proofs.Struct.Names

set_option autoImplicit false

namespace SchemaStructs

variable {ν : Type}

section

variable {structs : List Struct} {call : String → Dynamic ν → Except Refusal (Value ν)}
  {send : Value ν → Except Refusal (Dynamic ν)} {struct : String} {complete : List String}
  {entries : List (String × Dynamic ν)} {f : Field} {ident : String}

def Field.keyType (complete : List String) (f : Field) : CppType :=
  CppType.ofFieldType (complete.contains ·) false f.type

def Field.filled (f : Field) (v : Value ν) : Value ν := if f.optional then .just v else v

@[simp] theorem keyType_member : (f.member complete ident).keyType = f.keyType complete := by
  simp only [Field.member, CppMember.keyType, CppType.ofField]
  cases f.optional <;> rfl

@[simp] theorem isGuarded_member : (f.member complete ident).isGuarded = f.optional := by
  simp only [Field.member, CppMember.isGuarded, CppType.ofField]
  cases f.optional with
  | true => rfl
  | false =>
    simp only [Bool.false_eq_true, if_false]
    cases CppType.ofFieldType (complete.contains ·) false f.type <;> rfl

@[simp] theorem filled_member (v : Value ν) : (f.member complete ident).filled v = f.filled v := by
  simp [CppMember.filled, Field.filled]

theorem readFrom_member (hnul : NulFree f.name) (entries : List (String × Dynamic ν)) :
    (f.member complete ident).readFrom call struct entries =
      match entries.lookup f.name with
      | some d => do
        return (ident, f.filled (← (f.keyType complete).read call ⟨struct, f.name⟩ d))
      | none =>
        if f.optional then .ok (ident, .nothing)
        else .error (.missingField (cString struct) f.name) := by
  have hkey : cString (f.member complete ident).key = f.name := cString_eq hnul
  have hfilled : ((f.member complete ident).filled : Value ν → Value ν) = f.filled :=
    funext filled_member
  rw [CppMember.readFrom, hkey, keyType_member, hfilled]
  cases entries.lookup f.name <;> rfl

theorem writing_nothing {scope : Scope (Value ν)} (hopt : f.optional = true)
    (h : scope (.member ident) = some .nothing) :
    (f.member complete ident).writing.eval send scope entries = .ok entries := by
  rw [CppMember.writing_eval, isGuarded_member, hopt]
  simp only [Field.member, h]

theorem writing_filled (hnul : NulFree f.name) {scope : Scope (Value ν)} {v : Value ν}
    (h : scope (.member ident) = some (f.filled v)) :
    (f.member complete ident).writing.eval send scope entries = (do
      return put f.name (← (f.keyType complete).write send v) entries) := by
  rw [CppMember.writing_eval, isGuarded_member, keyType_member]
  simp only [Field.member, h, cString_eq hnul]
  cases hopt : f.optional with
  | true => simp only [Field.filled, hopt, if_true]
  | false => simp only [Field.filled, hopt, Bool.false_eq_true, if_false]

/-- The member of a field has the value, and writes it as the part that the field declares. -/
structure Carries (structs : List Struct) (call : String → Dynamic ν → Except Refusal (Value ν))
    (send : Value ν → Except Refusal (Dynamic ν)) (struct : String)
    (complete : List String) (entries : List (String × Dynamic ν)) (f : Field) (ident : String)
    (v : Value ν) : Prop where
  reads : (f.member complete ident).readFrom call struct entries = .ok (ident, v)
  writes : ∀ scope written, scope (.member ident) = some v → f.name ∉ written.map (·.1) →
    (f.member complete ident).writing.eval send scope written =
      .ok (written ++ (Dynamic.part? structs entries f).toList)
  rereads : ∀ part, part.lookup f.name = (entries.lookup f.name).map (·.declared structs f.type) →
    (f.member complete ident).readFrom call struct part = .ok (ident, v)

variable (hnul : NulFree f.name)
  (hconv : ∀ d, entries.lookup f.name = some d → Converts structs
    ((f.keyType complete).read call ⟨struct, f.name⟩) ((f.keyType complete).write send) f.type d)

include hnul hconv

theorem exists_carries (hfits : f.Fits structs entries) (ident : String) :
    ∃ v, Carries structs call send struct complete entries f ident v := by
  cases hd : entries.lookup f.name with
  | none =>
    have hopt : f.optional = true := by
      by_contra hreq
      obtain ⟨d, hsome⟩ := hfits.1 (by simpa using hreq)
      rw [hd] at hsome
      cases hsome
    refine ⟨.nothing, ?_, fun scope written hscope _ => ?_, fun part hpart => ?_⟩
    · rw [readFrom_member hnul, hd]
      simp only [hopt, if_true]
    · rw [writing_nothing hopt hscope, Dynamic.part?, hd]
      simp
    · rw [readFrom_member hnul, hpart, hd]
      simp only [hopt, if_true, Option.map_none]
  | some d =>
    rcases hconv d hd with ⟨v, -, reads, writes, rereads⟩ | ⟨e, unfit, -⟩
    · refine ⟨f.filled v, ?_, fun scope written hscope hnew => ?_, fun part hpart => ?_⟩
      · rw [readFrom_member hnul, hd]
        simp only [reads, ok_bind]
        rfl
      · rw [writing_filled hnul hscope, writes, ok_bind, Dynamic.part?, hd, Option.map_some,
          Option.toList_some, ← put_of_notMem hnew]
        rfl
      · rw [readFrom_member hnul, hpart, hd]
        simp only [Option.map_some, rereads, ok_bind]
        rfl
    · exact absurd (hfits.2 d hd) unfit

theorem exists_refusal (hfits : ¬ f.Fits structs entries) (ident : String) :
    ∃ e, (f.member complete ident).readFrom call struct entries = .error e ∧ e ≠ .undefined := by
  rw [readFrom_member hnul]
  cases hd : entries.lookup f.name with
  | none =>
    have hreq : f.optional = false := by
      by_contra hopt
      exact hfits ⟨fun h => absurd h hopt, fun d h => by rw [hd] at h; cases h⟩
    refine ⟨.missingField (cString struct) f.name, ?_, by rintro ⟨⟩⟩
    simp only [hreq, Bool.false_eq_true, if_false]
  | some d =>
    rcases hconv d hd with ⟨v, conforms, -⟩ | ⟨e, -, reads, thrown⟩
    · refine absurd ⟨fun _ => ⟨d, hd⟩, fun e he => ?_⟩ hfits
      rw [hd, Option.some.injEq] at he
      exact he ▸ conforms
    · refine ⟨e, ?_, thrown⟩
      simp only [reads]
      rfl

end

theorem Dynamic.part?_key {structs : List Struct} {entries : List (String × Dynamic ν)} {f : Field}
    {e : String × Dynamic ν} (h : part? structs entries f = some e) : e.1 = f.name := by
  obtain ⟨d, -, rfl⟩ := Option.map_eq_some_iff.1 h
  rfl

theorem Dynamic.lookup_parts {structs : List Struct} {entries : List (String × Dynamic ν)}
    {fields : List Field} (hnames : (fields.map (·.name)).Nodup) {f : Field} (hf : f ∈ fields) :
    (fields.filterMap (part? structs entries)).lookup f.name =
      (entries.lookup f.name).map (·.declared structs f.type) := by
  induction fields with
  | nil => cases hf
  | cons g fields ih =>
    rw [List.map_cons, List.nodup_cons] at hnames
    obtain ⟨hg, hnames⟩ := hnames
    rcases List.mem_cons.1 hf with rfl | hf
    · cases hd : entries.lookup f.name with
      | some d =>
        rw [List.filterMap_cons_some (by rw [part?, hd]; rfl), List.lookup_cons_self]
        rfl
      | none =>
        rw [List.filterMap_cons_none (by rw [part?, hd]; rfl)]
        refine lookup_eq_none_iff_notMem.2 fun hmem => hg ?_
        obtain ⟨e, he, hkey⟩ := List.mem_map.1 hmem
        obtain ⟨f', hf', hpart⟩ := List.mem_filterMap.1 he
        rw [← hkey, part?_key hpart]
        exact List.mem_map_of_mem hf'
    · have hne : f.name ≠ g.name := fun heq => hg (heq ▸ List.mem_map_of_mem hf)
      cases hpart : part? structs entries g with
      | none => rw [List.filterMap_cons_none hpart, ih hnames hf]
      | some e =>
        rw [List.filterMap_cons_some hpart, ← ih hnames hf]
        exact lookup_cons_ne (by rw [part?_key hpart]; exact hne)

section

variable {structs : List Struct} {call : String → Dynamic ν → Except Refusal (Value ν)}
  {send : Value ν → Except Refusal (Dynamic ν)}

theorem foldlM_writing {struct : String} {complete : List String}
    {entries : List (String × Dynamic ν)} {scope : Scope (Value ν)}
    {value : Field × String → Value ν} {l : List (Field × String)}
    (hcarries : ∀ x ∈ l, Carries structs call send struct complete entries x.1 x.2 (value x))
    (hscope : ∀ x ∈ l, scope (.member x.2) = some (value x))
    (hnames : (l.map (·.1.name)).Nodup) (written : List (String × Dynamic ν))
    (hnew : ∀ x ∈ l, x.1.name ∉ written.map (·.1)) :
    (l.map fun x => (x.1.member complete x.2).writing).foldlM (WriteStatement.eval send scope)
        written =
      .ok (written ++ (l.map (·.1)).filterMap (Dynamic.part? structs entries)) := by
  induction l generalizing written with
  | nil => simp [pure, Except.pure]
  | cons x l ih =>
    rw [List.forall_mem_cons] at hcarries hscope hnew
    rw [List.map_cons, List.nodup_cons] at hnames
    rw [List.map_cons, List.foldlM_cons, hcarries.1.writes scope written hscope.1 hnew.1, ok_bind,
      ih hcarries.2 hscope.2 hnames.2]
    · rw [List.append_assoc, List.map_cons, List.filterMap_cons]
      cases Dynamic.part? structs entries x.1 <;> rfl
    · intro y hy hmem
      rw [List.map_append, List.mem_append] at hmem
      rcases hmem with hmem | hmem
      · exact hnew.2 y hy hmem
      · obtain ⟨e, he, hkey⟩ := List.mem_map.1 hmem
        rw [Dynamic.part?_key (by simpa using he)] at hkey
        exact hnames.1 (hkey ▸ List.mem_map_of_mem hy)

theorem lookup_map_of_mem {α : Type} {l : List α} {key : α → String} {value : α → Value ν}
    (h : (l.map key).Nodup) {x : α} (hx : x ∈ l) :
    (l.map fun y => (key y, value y)).lookup (key x) = some (value x) := by
  induction l with
  | nil => cases hx
  | cons y l ih =>
    rw [List.map_cons, List.nodup_cons] at h
    rcases List.mem_cons.1 hx with rfl | hx
    · exact List.lookup_cons_self
    · have hne : key x ≠ key y := fun heq => h.1 (heq ▸ List.mem_map_of_mem hx)
      rw [List.map_cons, lookup_cons_ne hne, ih h.2 hx]

theorem exists_refused {struct : String} {complete : List String}
    {entries : List (String × Dynamic ν)} {l : List (Field × String)}
    (hnul : ∀ x ∈ l, NulFree x.1.name)
    (hconv : ∀ x ∈ l, ∀ d, entries.lookup x.1.name = some d → Converts structs
      ((x.1.keyType complete).read call ⟨struct, x.1.name⟩) ((x.1.keyType complete).write send)
      x.1.type d)
    {x : Field × String} (hx : x ∈ l) (hfits : ¬ x.1.Fits structs entries) :
    ∃ e, (l.map fun x => x.1.member complete x.2).mapM (CppMember.readFrom call struct entries) =
      .error e ∧ e ≠ .undefined := by
  obtain ⟨e, he, -⟩ := exists_refusal (hnul x hx) (hconv x hx) hfits x.2
  have hmem : x.1.member complete x.2 ∈ l.map fun x => x.1.member complete x.2 :=
    List.mem_map.2 ⟨x, hx, rfl⟩
  obtain ⟨e, hall⟩ := mapM_eq_error hmem he
  refine ⟨e, hall, ?_⟩
  obtain ⟨m, hm, hrefused⟩ := exists_error_of_mapM hall
  obtain ⟨y, hy, rfl⟩ := List.mem_map.1 hm
  by_cases hfits' : y.1.Fits structs entries
  · obtain ⟨v, hcarries⟩ := exists_carries (hnul y hy) (hconv y hy) hfits' y.2
    rw [hcarries.reads] at hrefused
    cases hrefused
  · obtain ⟨e', he', thrown⟩ := exists_refusal (hnul y hy) (hconv y hy) hfits' y.2
    rw [he', Except.error.injEq] at hrefused
    exact hrefused ▸ thrown

/-- Where every member has a value, the members are read, written and read again. -/
theorem exists_members {struct : String} {complete : List String}
    {entries : List (String × Dynamic ν)} {l : List (Field × String)}
    (hnames : (l.map (·.1.name)).Nodup) (hidents : (l.map (·.2)).Nodup)
    (h : ∀ x ∈ l, ∃ v, Carries structs call send struct complete entries x.1 x.2 v) :
    ∃ members : List (String × Value ν),
      (l.map fun x => x.1.member complete x.2).mapM (CppMember.readFrom call struct entries) =
        .ok members ∧
      (l.map fun x => (x.1.member complete x.2).writing).foldlM
        (WriteStatement.eval send (CppStruct.scope members)) [] =
          .ok ((l.map (·.1)).filterMap (Dynamic.part? structs entries)) ∧
      (l.map fun x => x.1.member complete x.2).mapM (CppMember.readFrom call struct
        ((l.map (·.1)).filterMap (Dynamic.part? structs entries))) = .ok members := by
  choose! value hcarries using h
  refine ⟨l.map fun x => (x.2, value x), ?_, ?_, ?_⟩
  · rw [List.mapM_map]
    exact mapM_eq_ok_map fun x hx => (hcarries x hx).reads
  · have hscope : ∀ x ∈ l, CppStruct.scope (l.map fun x => (x.2, value x)) (.member x.2) =
        some (value x) := fun x hx => lookup_map_of_mem hidents hx
    rw [foldlM_writing hcarries hscope hnames [] (by simp), List.nil_append]
  · rw [List.mapM_map]
    refine mapM_eq_ok_map fun x hx => (hcarries x hx).rereads _ ?_
    refine Dynamic.lookup_parts ?_ (List.mem_map_of_mem hx)
    rwa [List.map_map]

def CppStruct.writeValue (send : Value ν → Except Refusal (Dynamic ν)) (s : CppStruct) :
    Value ν → Except Refusal (Dynamic ν)
  | .object _ members => s.write send members
  | _ => .error .undefined

theorem converts_object (hlinked : Linked structs) {s : Struct} (hs : s ∈ structs)
    (hnames : (s.fields.map (·.name)).Nodup) (hnul : ∀ f ∈ s.fields, NulFree f.name)
    {entries : List (String × Dynamic ν)}
    (hconv : ∀ f ∈ s.fields, ∀ d, entries.lookup f.name = some d → Converts structs
      ((f.keyType (completeAt structs s)).read call ⟨s.name, f.name⟩)
      ((f.keyType (completeAt structs s)).write send) f.type d) :
    Converts structs ((s.toCpp structs).read call) ((s.toCpp structs).writeValue send)
      (.struct s.name) (.object entries) := by
  have hfields : (s.fields.zip (s.idents structs)).map (·.1) = s.fields := by
    rw [List.map_fst_zip]
    simp
  have hmem : ∀ x ∈ s.fields.zip (s.idents structs), x.1 ∈ s.fields := by
    intro x hx
    rw [← hfields]
    exact List.mem_map_of_mem hx
  have hidents : ((s.fields.zip (s.idents structs)).map (·.2)).Nodup := by
    rw [List.map_snd_zip]
    · exact (Ident.nodup_assign _ _ _).1
    · simp
  have hread : ∀ es : List (String × Dynamic ν), (s.toCpp structs).read call (.object es) = (do
      return .object s.name
        (← (s.toCpp structs).members.mapM (CppMember.readFrom call s.name es))) := fun es =>
    CppStruct.read_object (by rw [Struct.idents_toCpp]; exact (Ident.nodup_assign _ _ _).1) es
  -- Each member is read from a key of its own, so what else the object holds does not matter.
  by_cases hfits : ∀ f ∈ s.fields, f.Fits structs entries
  · have hkeys : ((s.fields.zip (s.idents structs)).map (·.1.name)).Nodup := by
      rwa [← hfields, List.map_map] at hnames
    obtain ⟨members, reads, writes, rereads⟩ := exists_members hkeys hidents fun x hx =>
      exists_carries (hnul x.1 (hmem x hx)) (hconv x.1 (hmem x hx)) (hfits x.1 (hmem x hx)) x.2
    have hdeclared := Dynamic.declared_struct hlinked hs entries
    rw [hfields] at writes rereads
    refine .accepted (.object s.name members) ((conforms_object_iff hlinked hs).2 hfits) ?_ ?_ ?_
    · rw [hread, Struct.toCpp, reads]
      rfl
    · have hwriting : (s.toCpp structs).writing = .declare :: (s.fields.zip (s.idents structs)).map
          fun x => (x.1.member (completeAt structs s) x.2).writing := by
        simp [CppStruct.writing, Struct.toCpp]
      rw [hdeclared, CppStruct.writeValue, CppStruct.write, hwriting, List.foldlM_cons,
        WriteStatement.eval_declare, ok_bind, writes]
      rfl
    · rw [hdeclared, hread, Struct.toCpp, rereads]
      rfl
  · obtain ⟨f, hf, hunfit⟩ : ∃ f ∈ s.fields, ¬ f.Fits structs entries := by simpa using hfits
    rw [← hfields] at hf
    obtain ⟨x, hx, rfl⟩ := List.mem_map.1 hf
    obtain ⟨e, he, thrown⟩ := exists_refused (fun x hx => hnul x.1 (hmem x hx))
      (fun x hx => hconv x.1 (hmem x hx)) hx hunfit
    refine .refused e (fun h => hfits ((conforms_object_iff hlinked hs).1 h)) ?_ thrown
    rw [hread, Struct.toCpp, he]
    rfl

theorem converts_struct (hlinked : Linked structs) {s : Struct} (hs : s ∈ structs)
    (hnames : (s.fields.map (·.name)).Nodup) (hnul : ∀ f ∈ s.fields, ∀ text ∈ f.texts, NulFree text)
    {d : Dynamic ν} (hcall : ∀ t ∈ structs, ∀ e : Dynamic ν, e.depth < d.depth →
      Converts structs (call t.name) send (.struct t.name) e) :
    Converts structs ((s.toCpp structs).read call) ((s.toCpp structs).writeValue send)
      (.struct s.name) d := by
  cases d with
  | object entries =>
    refine converts_object hlinked hs hnames (fun f hf => hnul f hf _ List.mem_cons_self) ?_
    intro f hf d hd
    refine converts_ofFieldType f.type (fun m hm => hnul f hf m (List.mem_cons_of_mem _ hm)) ?_
    intro name href e he
    obtain ⟨k, hk⟩ := exists_refAt_iff.2 ⟨f, hf, href⟩
    obtain ⟨t, ht, rfl, -⟩ := hlinked.exists_structNamed hs hk
    exact hcall t ht e (Nat.lt_of_le_of_lt he (Dynamic.depth_lt_of_lookup hd))
  | _ =>
    refine .refused _ (fun h => ?_) rfl (by rintro ⟨⟩)
    obtain ⟨_, _, _, _, hobject, _⟩ := h.exists_struct
    cases hobject

/-- By induction on the depth of the value: a struct calls structs on parts of its value only. -/
theorem converts_fromDynamic (hlinked : Linked structs)
    (hnames : ∀ s ∈ structs, (s.fields.map (·.name)).Nodup)
    (hnul : ∀ s ∈ structs, ∀ f ∈ s.fields, ∀ text ∈ f.texts, NulFree text) (depth : Nat)
    {s : Struct} (hs : s ∈ structs) {d : Dynamic ν} (hd : d.depth < depth) :
    Converts structs (fromDynamic (structs.map (Struct.toCpp structs)) s.name)
      (toDynamic (structs.map (Struct.toCpp structs))) (.struct s.name) d := by
  induction depth generalizing s d with
  | zero => exact absurd hd (Nat.not_lt_zero _)
  | succ depth ih =>
    have hfind : (structs.map (Struct.toCpp structs)).find? (·.name == s.name) =
        some (s.toCpp structs) := by
      rw [List.find?_map]
      exact congrArg _ (hlinked.structNamed_eq hs)
    have hread : ∀ e : Dynamic ν, fromDynamic (structs.map (Struct.toCpp structs)) s.name e =
        (s.toCpp structs).read (fromDynamic (structs.map (Struct.toCpp structs))) e := by
      intro e
      rw [fromDynamic_eq, hfind]
    have hwrite : ∀ v : Value ν, ∀ e e',
        (s.toCpp structs).read (fromDynamic (structs.map (Struct.toCpp structs))) e = .ok v →
        (s.toCpp structs).writeValue (toDynamic (structs.map (Struct.toCpp structs))) v = .ok e' →
        toDynamic (structs.map (Struct.toCpp structs)) v = .ok e' := by
      intro v e e' hv hw
      obtain ⟨members, -, hv⟩ := bind_eq_ok.1 hv
      cases hv
      have hname : (s.toCpp structs).name = s.name := rfl
      rw [toDynamic_object, hname, hfind]
      exact hw
    rcases converts_struct hlinked hs (hnames s hs) (hnul s hs) fun t ht e he =>
      ih ht (Nat.lt_of_lt_of_le he (Nat.le_of_lt_succ hd)) with
      ⟨v, conforms, reads, writes, rereads⟩ | ⟨e, unfit, reads, thrown⟩
    · exact .accepted v conforms ((hread d).trans reads) (hwrite v d _ reads writes)
        ((hread _).trans rereads)
    · exact .refused e unfit ((hread d).trans reads) thrown

end

variable {moduleName : String} {aliases : Aliases} {methods : List Method}
  {structs : List Struct}

structure ConvertsExactly (structs : List Struct) (program : List CppStruct) (s : Struct)
    (d : Dynamic ν) : Prop where
  accepts : (∃ v, fromDynamic program s.name d = .ok v) ↔ Conforms structs (.struct s.name) d
  /-- What is not accepted is refused by a check of the code. -/
  defined : fromDynamic program s.name d ≠ .error .undefined
  back : ∀ v, fromDynamic program s.name d = .ok v →
    toDynamic program v = .ok (d.declared structs (.struct s.name))
  again : ∀ v, fromDynamic program s.name d = .ok v →
    fromDynamic program s.name (d.declared structs (.struct s.name)) = .ok v

def mutualQuery : Dynamic Nat :=
  .object [("limit", .number 5), ("order", .array [.string "desc"]),
    ("start", .object [("next", .object [])])]

end SchemaStructs
