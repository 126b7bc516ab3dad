import SchemaStructs.Proofs.Header.Evaluation

/-!
Conversions by type. What an expression computes depends on its type and on the value at its place
only, and it calls structs on parts of that value only, so that the conversions of structs are a
recursion over values.
-/

set_option autoImplicit false

namespace SchemaStructs

variable {ν : Type}

namespace CppType

def read (call : String → Dynamic ν → Except Refusal (Value ν)) (names : Names) :
    CppType → Dynamic ν → Except Refusal (Value ν)
  | .bool, d => do return .bool (← d.expectBool names)
  | .number, d => do return .number (← d.expectNumber names)
  | .string, d => do return .text (← d.expectString names)
  | .enum members, d => do return .text (← d.expectOneOf names members)
  | .dynamic, d => return .dynamic d
  | .struct name, d => call name d
  | .shared name, d => do return .just (← call name d)
  | .vector element, d => do
    return .list (← (← d.expectArray names).mapM (element.read call names))
  | .optional inner, d => do
    if d.isNull then return .nothing
    return .just (← inner.read call names d)

def write (call : Value ν → Except Refusal (Dynamic ν)) :
    CppType → Value ν → Except Refusal (Dynamic ν)
  | .bool, .bool b | .number, .bool b | .string, .bool b | .enum _, .bool b => .ok (.bool b)
  | .bool, .number n | .number, .number n | .string, .number n | .enum _, .number n =>
    .ok (.number n)
  | .bool, .text t | .number, .text t | .string, .text t | .enum _, .text t => .ok (.string t)
  | .dynamic, .dynamic d => .ok d
  | .struct _, v => call v
  | .shared _, .just v => call v
  | .shared _, .nothing => .ok .null
  | .vector element, .list items => do return .array (← items.mapM (element.write call))
  | .optional inner, .just v => inner.write call v
  | .optional _, .nothing => .ok .null
  | _, _ => .error .undefined

variable {call call' : String → Dynamic ν → Except Refusal (Value ν)} {names : Names}
  {send send' : Value ν → Except Refusal (Dynamic ν)}

theorem reader_eval (t : CppType) (p : Place) (depth : Nat) {scope : Scope (Dynamic ν)}
    {d : Dynamic ν} (h : scope p = some d) :
    (t.reader p depth).eval call names scope = t.read call names d := by
  have hfind : scope.find p = .ok d := by rw [Scope.find, h]
  induction t generalizing p depth scope d with
  | bool | number | string | enum | dynamic | struct | shared =>
    simp only [reader, read, ReadExpr.eval, hfind, ok_bind]
  | vector element ih =>
    have hitem : (fun item => (element.reader (.item depth) (depth + 1)).eval call names
        (scope.bind (.item depth) item)) = element.read call names := by
      funext item
      have hself := scope.bind_self (.item depth) item
      exact ih _ _ hself (by rw [Scope.find, hself])
    simp only [reader, read, ReadExpr.eval, hfind, ok_bind, hitem]
  | optional inner ih =>
    simp only [reader, read, ReadExpr.eval, hfind, ok_bind, ih p depth h hfind]

theorem writer_eval (t : CppType) (p : Place) (depth : Nat) (scope : Scope (Value ν)) :
    (t.writer p depth).eval send scope =
      match scope.value? p with
      | some v => t.write send v
      | none => .error .undefined := by
  induction t generalizing p depth scope with
  | bool | number | string | enum | dynamic | struct | shared =>
    simp only [writer, WriteExpr.eval]
    cases scope.value? p with
    | none => rfl
    | some v => cases v <;> rfl
  | vector element ih =>
    have hitem : (fun item => (element.writer (.item depth) (depth + 1)).eval send
        (scope.bind (.item depth) item)) = element.write send := by
      funext item
      have hself : (scope.bind (.item depth) item).value? (.item depth) = some item :=
        scope.bind_self (.item depth) item
      rw [ih, hself]
    simp only [writer, WriteExpr.eval, hitem]
    cases scope.value? p with
    | none => rfl
    | some v => cases v <;> rfl
  | optional inner ih =>
    simp only [writer, WriteExpr.eval, ih, Scope.value?]
    cases scope.value? p with
    | none => rfl
    | some v => cases v <;> rfl

theorem read_congr (t : CppType) {d : Dynamic ν}
    (h : ∀ name, ∀ e : Dynamic ν, e.depth ≤ d.depth → call name e = call' name e) :
    t.read call names d = t.read call' names d := by
  induction t generalizing d with
  | bool | number | string | enum | dynamic => rfl
  | struct name => exact h name d (Nat.le_refl _)
  | shared name => rw [read, read, h name d (Nat.le_refl _)]
  | vector element ih =>
    cases d with
    | array items =>
      simp only [read, Dynamic.expectArray, ok_bind]
      rw [mapM_congr fun e he => ih fun name e' he' =>
        h name e' (Nat.le_trans he' (Nat.le_of_lt (Dynamic.depth_lt_of_mem he)))]
    | _ => rfl
  | optional inner ih => rw [read, read, ih h]

theorem write_congr (t : CppType) {v : Value ν}
    (h : ∀ w : Value ν, w.depth ≤ v.depth → send w = send' w) :
    t.write send v = t.write send' v := by
  induction t generalizing v with
  | bool | number | string | enum | dynamic => cases v <;> rfl
  | struct name =>
    rw [write, write]
    exact h v (Nat.le_refl _)
  | shared name =>
    cases v with
    | just w => exact h w (by simp [Value.depth])
    | _ => rfl
  | vector element ih =>
    cases v with
    | list items =>
      simp only [write]
      rw [mapM_congr fun w hw => ih fun w' hw' =>
        h w' (Nat.le_trans hw' (Nat.le_of_lt (Value.depth_lt_of_mem hw)))]
    | _ => rfl
  | optional inner ih =>
    cases v with
    | just w =>
      simp only [write]
      exact ih fun w' hw' => h w' (Nat.le_trans hw' (by simp [Value.depth]))
    | _ => rfl

end CppType

namespace CppMember

def keyType (m : CppMember) : CppType :=
  match m.optional, m.type with
  | true, .optional inner => inner
  | _, type => type

variable {call call' : String → Dynamic ν → Except Refusal (Value ν)}
  {send send' : Value ν → Except Refusal (Dynamic ν)}

theorem reader_eq (m : CppMember) : m.reader = m.keyType.reader (.target .field) 0 := by
  obtain ⟨key, ident, type, optional⟩ := m
  cases optional <;> cases type <;> rfl

theorem writer_eq (m : CppMember) : m.writer = m.keyType.writer
    (if m.isGuarded then .target (.member m.ident) else .member m.ident) 0 := by
  obtain ⟨key, ident, type, optional⟩ := m
  cases optional <;> cases type <;> rfl

def filled (m : CppMember) (v : Value ν) : Value ν := if m.isGuarded then .just v else v

def readFrom (call : String → Dynamic ν → Except Refusal (Value ν)) (struct : String)
    (entries : List (String × Dynamic ν)) (m : CppMember) : Except Refusal (String × Value ν) :=
  match entries.lookup (cString m.key) with
  | some d => do return (m.ident, m.filled (← m.keyType.read call ⟨struct, m.key⟩ d))
  | none =>
    if m.optional then .ok (m.ident, .nothing)
    else .error (.missingField (cString struct) (cString m.key))

theorem assignment_eval (m : CppMember) (struct : String) (d : Dynamic ν)
    (members : List (String × Value ν)) :
    Assignment.eval call ⟨struct, m.key⟩ d members ⟨m.ident, m.isGuarded, m.reader⟩ = do
      return put m.ident (m.filled (← m.keyType.read call ⟨struct, m.key⟩ d)) members := by
  rw [Assignment.eval, reader_eq, CppType.reader_eval _ _ _ (Scope.bind_self _ _ _)]
  rfl

theorem reading_eval (m : CppMember) (s : CppStruct) (entries : List (String × Dynamic ν))
    (members : List (String × Value ν)) :
    m.reading.eval call s (.object entries) members =
      match entries.lookup (cString m.key) with
      | some d => do
        return put m.ident (m.filled (← m.keyType.read call ⟨s.name, m.key⟩ d)) members
      | none =>
        if m.optional then .ok members
        else .error (.missingField (cString s.name) (cString m.key)) := by
  -- Whether the key must be there, and whether it is.
  by_cases hoptional : m.optional <;> cases hd : entries.lookup (cString m.key) <;>
    simp [reading, ReadStatement.eval, Dynamic.find, assignment_eval, hoptional, hd]

theorem ident_of_readFrom {m : CppMember} {struct : String} {entries : List (String × Dynamic ν)}
    {x : String × Value ν} (h : m.readFrom call struct entries = .ok x) : x.1 = m.ident := by
  unfold readFrom at h
  split at h
  · obtain ⟨v, -, h⟩ := bind_eq_ok.1 h
    cases h
    rfl
  · split at h <;> cases h
    rfl

theorem reading_eval_append (m : CppMember) (s : CppStruct) (entries : List (String × Dynamic ν))
    {before rest : List (String × Value ν)} (h : m.ident ∉ before.map (·.1)) :
    m.reading.eval call s (.object entries) (before ++ (m.ident, .nothing) :: rest) = (do
      return before ++ (← m.readFrom call s.name entries) :: rest) := by
  rw [reading_eval, readFrom]
  cases hd : entries.lookup (cString m.key) with
  | some d => simp only [put_append h, put_cons_self, bind_assoc, pure_bind]
  | none => dsimp only; split <;> rfl

theorem writing_eval (m : CppMember) (scope : Scope (Value ν))
    (entries : List (String × Dynamic ν)) :
    m.writing.eval send scope entries =
      match m.isGuarded, scope (.member m.ident) with
      | true, some .nothing => .ok entries
      | true, some (.just v) => do
        return put (cString m.key) (← m.keyType.write send v) entries
      | false, some v => do
        return put (cString m.key) (← m.keyType.write send v) entries
      | _, _ => .error .undefined := by
  have hvalue : scope.value? (.member m.ident) = scope (.member m.ident) := rfl
  have hwriter := writer_eq m
  unfold writing
  cases hguarded : m.isGuarded with
  | false =>
    rw [hguarded, if_neg Bool.false_ne_true] at hwriter
    simp only [Bool.false_eq_true, if_false, WriteStatement.eval, hwriter, CppType.writer_eval,
      hvalue]
    cases scope (.member m.ident) <;> rfl
  | true =>
    rw [hguarded, if_pos rfl] at hwriter
    simp only [if_true, WriteStatement.eval, hwriter, CppType.writer_eval, Scope.value?]
    cases scope (.member m.ident) with
    | none => rfl
    | some v => cases v <;> rfl

theorem reading_congr (m : CppMember) {s : CppStruct} {entries : List (String × Dynamic ν)}
    (h : ∀ name, ∀ e : Dynamic ν, e.depth < (Dynamic.object entries).depth →
      call name e = call' name e) (members : List (String × Value ν)) :
    m.reading.eval call s (.object entries) members =
      m.reading.eval call' s (.object entries) members := by
  rw [reading_eval, reading_eval]
  cases hd : entries.lookup (cString m.key) with
  | some d =>
    have hlt := Dynamic.depth_lt_of_lookup hd
    simp only [CppType.read_congr _ fun name e he => h name e (Nat.lt_of_le_of_lt he hlt)]
  | none => rfl

theorem writing_congr (m : CppMember) {name : String} {members : List (String × Value ν)}
    (h : ∀ w : Value ν, w.depth < (Value.object name members).depth → send w = send' w)
    (entries : List (String × Dynamic ν)) :
    m.writing.eval send (CppStruct.scope members) entries =
      m.writing.eval send' (CppStruct.scope members) entries := by
  rw [writing_eval, writing_eval]
  cases hv : CppStruct.scope members (.member m.ident) with
  | none => cases m.isGuarded <;> rfl
  | some v =>
    have hlt : v.depth < (Value.object name members).depth := Value.depth_lt_of_lookup hv
    cases m.isGuarded with
    | false => simp only [CppType.write_congr _ fun w hw => h w (Nat.lt_of_le_of_lt hw hlt)]
    | true =>
      cases v with
      | just v =>
        have hlt' : v.depth < (Value.object name members).depth :=
          Nat.lt_trans (by simp [Value.depth]) hlt
        simp only [CppType.write_congr _ fun w hw => h w (Nat.lt_of_le_of_lt hw hlt')]
      | _ => rfl

end CppMember

namespace CppStruct

variable {call call' : String → Dynamic ν → Except Refusal (Value ν)}
  {send send' : Value ν → Except Refusal (Dynamic ν)}

theorem foldlM_reading (call : String → Dynamic ν → Except Refusal (Value ν)) (s : CppStruct)
    (entries : List (String × Dynamic ν)) (before : List (String × Value ν)) {ms : List CppMember}
    (h : (before.map (·.1) ++ ms.map (·.ident)).Nodup) :
    (ms.map CppMember.reading).foldlM (ReadStatement.eval call s (.object entries))
        (before ++ ms.map fun m => (m.ident, .nothing)) = (do
      return before ++ (← ms.mapM (CppMember.readFrom call s.name entries))) := by
  induction ms generalizing before with
  | nil => simp
  | cons m ms ih =>
    have hnew : m.ident ∉ before.map (·.1) := fun hmem =>
      (List.nodup_append.1 h).2.2 _ hmem _ List.mem_cons_self rfl
    rw [List.map_cons, List.map_cons, List.foldlM_cons, m.reading_eval_append s entries hnew,
      List.mapM_cons]
    cases hread : m.readFrom call s.name entries with
    | error e => rfl
    | ok x =>
      have hident : x.1 = m.ident := CppMember.ident_of_readFrom hread
      have hrest := ih (before ++ [x]) (by simpa [hident] using h)
      simpa using hrest

theorem read_object {s : CppStruct} (h : (s.members.map (·.ident)).Nodup)
    (entries : List (String × Dynamic ν)) :
    s.read call (.object entries) = (do
      return .object s.name (← s.members.mapM (CppMember.readFrom call s.name entries))) := by
  have hmembers := foldlM_reading call s entries [] h
  rw [List.nil_append] at hmembers
  simp [read, reading, hmembers]

theorem read_congr (s : CppStruct) {d : Dynamic ν}
    (h : ∀ name, ∀ e : Dynamic ν, e.depth < d.depth → call name e = call' name e) :
    s.read call d = s.read call' d := by
  cases d with
  | object entries =>
    have hreading : (fun members m => (CppMember.reading m).eval call s (.object entries) members) =
        fun members m => (CppMember.reading m).eval call' s (.object entries) members := by
      funext members m
      exact m.reading_congr h members
    simp only [read, reading, List.foldlM_cons, List.foldlM_map, ReadStatement.eval_expectObject,
      ReadStatement.eval_declare, ok_bind, hreading]
  | _ => rfl

theorem write_congr (s : CppStruct) {name : String} {members : List (String × Value ν)}
    (h : ∀ w : Value ν, w.depth < (Value.object name members).depth → send w = send' w) :
    s.write send members = s.write send' members := by
  have hwriting : (fun es m => (CppMember.writing m).eval send (scope members) es) =
      fun es m => (CppMember.writing m).eval send' (scope members) es := by
    funext es m
    exact m.writing_congr h es
  simp only [write, writing, List.foldlM_cons, List.foldlM_map, hwriting,
    WriteStatement.eval_declare]

end CppStruct

theorem fromDynamic_eq (program : List CppStruct) (name : String) (d : Dynamic ν) :
    fromDynamic program name d =
      match program.find? (·.name == name) with
      | some s => s.read (fromDynamic program) d
      | none => .error .undefined := by
  refine within_fix (fun a => a.2.depth) (fun f g a hcalls => ?_) (name, d)
  obtain ⟨name, d⟩ := a
  simp only [readCall]
  cases program.find? (·.name == name) with
  | none => rfl
  | some s => exact s.read_congr fun n e he => hcalls (n, e) he

theorem toDynamic_object (program : List CppStruct) (name : String)
    (members : List (String × Value ν)) :
    toDynamic program (.object name members) =
      match program.find? (·.name == name) with
      | some s => s.write (toDynamic program) members
      | none => .error .undefined := by
  refine within_fix Value.depth (fun f g a hcalls => ?_) (.object name members)
  cases a with
  | object name members =>
    simp only [writeCall]
    cases program.find? (·.name == name) with
    | none => rfl
    | some s => exact s.write_congr hcalls
  | _ => rfl

end SchemaStructs
