import SchemaStructs.Proofs.Merge.Identity
import SchemaStructs.Proofs.Struct.Order
import SchemaStructs.Proofs.Struct.Recursion
import SchemaStructs.Proofs.Struct.Underway

/-!
Collecting without any memory but the structs themselves. Every object is lowered afresh each time
it is met, after its properties; it is the earlier struct with its fields if there is one, and a
new struct if not. Where no alias leads back to itself, lowering an object again leads to the
struct that it has, and to no new one.
-/

set_option autoImplicit false

namespace SchemaStructs

open Relation

abbrev Plain := StateT (List Struct) (Except HeaderError)

def plainStruct (moduleName : String) (origin : Origin) (fields : List Field) : Plain String := do
  let structs ← get
  match structs.find? (·.fields == fields) with
  | some t => return t.name
  | none =>
    let base := origin.base moduleName
    match Naming.firstFree? (structs.map (·.name)) base Naming.maxNumber with
    | some name =>
      set (structs ++ [⟨name, fields, origin⟩])
      return name
    | none => throw (.namesExhausted base Naming.maxNumber)

def plainObject (moduleName : String) (path : List String) (origin : Origin)
    (properties : List Property) (fields : Plain (List Field)) : Plain String := do
  match firstRepeat? [] (properties.map (·.name)) with
  | some p => throw (.invalidAt path (.duplicateProperty p))
  | none => plainStruct moduleName origin (← fields)

section

variable (moduleName : String) (enter : List String → String → Plain (FieldType String))

mutual

/-- The field type of a type. An object that is the whole definition of `owner` has its origin
there, any other at the path. -/
def plainType (owner : Option String) (path : List String) :
    SchemaType → Plain (FieldType String)
  | .scalar .bool => return .bool
  | .scalar .number => return .number
  | .scalar .string => return .string
  | .scalar .void => throw (.invalidAt path .voidValue)
  | .generic => return .generic
  | .enum [] => throw (.invalidAt path .emptyEnum)
  | .enum (m :: ms) => return .enum (m :: ms)
  | .array element => return .array (← plainType none (path ++ [Naming.elementSegment]) element)
  | .nullable inner => return .nullable (← plainType none path inner)
  | .object ps =>
    return .struct (← plainObject moduleName path ((owner.map .named).getD (.path path)) ps
      (plainProperties path ps))
  | .named name => enter path name

def plainProperties (path : List String) : List Property → Plain (List Field)
  | [] => return []
  | ⟨name, type, optional⟩ :: ps => do
    let lowered ← plainType none (path ++ [name]) type
    return ⟨name, lowered, optional⟩ :: (← plainProperties path ps)

end

end

/-- The field type of an alias; to come to one again on the way is an error. -/
def plainAlias (moduleName : String) (aliases : Aliases) (passed : List String) :
    List String → String → Plain (FieldType String) := fun path name =>
  if _h : name ∈ passed then throw (.recursiveAlias name (passed.reverse ++ [name]))
  else
    match _hget : aliases.lookup name with
    | some body =>
      plainType moduleName (plainAlias moduleName aliases (name :: passed)) (some name) path body
    | none => throw (.unknownAlias name)
termination_by unseen (fun _ => 1) passed aliases
decreasing_by
  have := unseen_add_le (fun _ => 1) passed (_ :: passed) _h List.mem_cons_self
    (fun n hn => List.mem_cons_of_mem _ hn) _hget
  omega

def plainSlots (moduleName : String) (aliases : Aliases) : List Slot → Plain Unit
  | [] => return ()
  | slot :: slots => do
    unless slot.isResult && slot.type.isVoid do
      let _ ← plainType moduleName (plainAlias moduleName aliases []) none slot.path slot.type
    plainSlots moduleName aliases slots

def collectPlain (moduleName : String) (aliases : Aliases) (methods : List Method) :
    Except HeaderError (List Struct) := do
  let ((), structs) ← (plainSlots moduleName aliases (methods.flatMap Method.slots)).run []
  return structs

namespace Plain

variable {α β : Type} {x : Plain α} {f : α → Plain β} {structs structs' : List Struct} {a : α}

theorem bind_of_ok (h : x.run structs = .ok (a, structs')) :
    (x >>= f).run structs = (f a).run structs' := by
  rw [StateT.run_bind, h]
  rfl

theorem bind_of_error {e : HeaderError} (h : x.run structs = .error e) :
    (x >>= f).run structs = .error e := by
  rw [StateT.run_bind, h]
  rfl

end Plain

section

variable {moduleName : String} {origin : Origin} {fields : List Field} {structs : List Struct}

theorem plainStruct_earlier {t : Struct} (h : structs.find? (·.fields == fields) = some t) :
    (plainStruct moduleName origin fields).run structs = .ok (t.name, structs) := by
  rw [plainStruct, Plain.bind_of_ok rfl, h]
  rfl

theorem plainStruct_new (h : structs.find? (·.fields == fields) = none) :
    (plainStruct moduleName origin fields).run structs =
      match Naming.firstFree? (structs.map (·.name)) (origin.base moduleName) Naming.maxNumber with
      | some name => .ok (name, structs ++ [⟨name, fields, origin⟩])
      | none => .error (.namesExhausted (origin.base moduleName) Naming.maxNumber) := by
  rw [plainStruct, Plain.bind_of_ok rfl, h]
  dsimp only
  cases Naming.firstFree? (structs.map (·.name)) (origin.base moduleName) Naming.maxNumber <;> rfl

theorem plainObject_distinct {path : List String} {ps : List Property}
    {lowered : Plain (List Field)} (h : (ps.map (·.name)).Nodup) :
    plainObject moduleName path origin ps lowered =
      lowered >>= plainStruct moduleName origin := by
  rw [plainObject, firstRepeat?_eq_none h]

end

section

variable {moduleName : String} {aliases : Aliases} {methods : List Method}
  {passed : List String} {path : List String}

theorem plainAlias_defined {n : String} {body : SchemaType} (h : n ∉ passed)
    (hbody : aliases.lookup n = some body) : plainAlias moduleName aliases passed path n =
      plainType moduleName (plainAlias moduleName aliases (n :: passed)) (some n) path body := by
  rw [plainAlias, dif_neg h]
  split
  · next body' hbody' => rw [Option.some.inj (hbody.symm.trans hbody')]
  · next hnone => rw [hbody] at hnone; cases hnone

/-- References lead from each of the names to all that the type mentions. -/
def LeadTo (aliases : Aliases) (passed : List String) (t : SchemaType) : Prop :=
  ∀ p ∈ passed, ∀ n ∈ t.targets, TransGen (Refers aliases Reference.any) p n

namespace LeadTo

variable {t : SchemaType}

theorem element (h : LeadTo aliases passed (.array t)) : LeadTo aliases passed t :=
  fun p hp n hn => h p hp n (by simpa using hn)

theorem inner (h : LeadTo aliases passed (.nullable t)) : LeadTo aliases passed t :=
  fun p hp n hn => h p hp n (by simpa using hn)

theorem property {ps : List Property} {p : Property} (h : LeadTo aliases passed (.object ps))
    (hp : p ∈ ps) : LeadTo aliases passed p.type :=
  fun q hq n hn => h q hq n (by simpa using ⟨p, hp, hn⟩)

theorem definition {n : String} {body : SchemaType} (h : LeadTo aliases passed (.named n))
    (hbody : aliases.lookup n = some body) : LeadTo aliases (n :: passed) body := by
  intro p hp m hm
  obtain ⟨r, hr, rfl⟩ := SchemaType.mem_targets.1 hm
  have hstep : Refers aliases Reference.any n r.target := ⟨body, hbody, r, hr, rfl, rfl⟩
  rcases List.mem_cons.1 hp with rfl | hp
  · exact .single hstep
  · exact (h p hp n (List.mem_singleton.2 rfl)).tail hstep

theorem notMem (hacyclic : ¬ Recursive aliases methods) {site : Site} {n : String}
    {body : SchemaType} (h : LeadTo aliases passed (.named n))
    (hocc : Occurs aliases methods site (.named n)) (hbody : aliases.lookup n = some body) :
    n ∉ passed := by
  intro hmem
  obtain ⟨slot, hslot, hreach⟩ := (hocc.definition hbody).reaches_owner rfl
  exact hacyclic ⟨slot, hslot, n, hreach, h n hmem n (List.mem_singleton.2 rfl)⟩

end LeadTo

end

section

variable {moduleName : String} {aliases : Aliases} {methods : List Method}

theorem LowersAll.plainProperties {names : Site → String → Prop} {site : Site} {k : Nat}
    {ps : List Property} {fs : List Field} {path : List String} {structs : List Struct}
    {enter : List String → String → Plain (FieldType String)}
    (h : LowersAll aliases names site k ps fs)
    (hall : ∀ i p f, ps[i]? = some p → fs[i]? = some f →
      Lowers aliases names (site.under (k + i)) p.type f.type → ∀ path,
        (plainType moduleName enter none path p.type).run structs = .ok (f.type, structs)) :
    (plainProperties moduleName enter path ps).run structs = .ok (fs, structs) := by
  induction h with
  | nil => rfl
  | @cons k name t f optional ps fs head tail ih =>
    have hhead := hall 0 _ _ rfl rfl head (path ++ [name])
    have htail := ih fun i p f hp hf hlow =>
      hall (i + 1) p f hp hf (by rwa [Nat.add_assoc, Nat.add_comm 1] at hlow)
    rw [SchemaStructs.plainProperties, Plain.bind_of_ok hhead, Plain.bind_of_ok htail]
    rfl

theorem find?_fields_eq {structs : List Struct} (hdistinct : (structs.map (·.fields)).Nodup)
    {t : Struct} (ht : t ∈ structs) : structs.find? (·.fields == t.fields) = some t := by
  cases hfind : structs.find? (·.fields == t.fields) with
  | none => simpa using List.find?_eq_none.1 hfind t ht
  | some u =>
    have hfields : u.fields = t.fields := by simpa using List.find?_some hfind
    rw [List.inj_on_of_nodup_map hdistinct (List.mem_of_find?_eq_some hfind) ht hfields]

/-- No name is given out before its time, and no two structs have equal fields. -/
structure Collected.Tidy (s : Collected) : Prop where
  reserved : s.reserved = []
  distinct : (s.structs.map (·.fields)).Nodup

namespace Underway

variable {pending : List Pending} {s : Collected}

theorem backward (h : Underway moduleName aliases methods pending s)
    (hacyclic : ¬ Recursive aliases methods) : Backward s.structs := by
  intro before t after hsplit k name hk
  refine ((Steps.ordered h.reached).2 before t after hsplit k name hk).resolve_right ?_
  rintro ⟨site, place, -, -, hcontains, path⟩
  exact hacyclic (recursive_of_circle (.head' hcontains path))

theorem taken_perm (h : Underway moduleName aliases methods pending s) (ht : s.Tidy) :
    s.taken.Perm (s.structs.map (·.name)) := by
  simpa [ht.reserved] using h.invariant.booked.taken

theorem names_nodup (h : Underway moduleName aliases methods pending s) :
    (s.structs.map (·.name)).Nodup :=
  (List.nodup_append.1 (h.invariant.booked.taken.nodup_iff.1 h.invariant.booked.distinct)).1

/-- Lowering again what has been lowered gives the same and adds no struct. A struct refers to
those before it, so the induction is on how many there are. -/
theorem plainType_again (h : Underway moduleName aliases methods pending s) (ht : s.Tidy)
    (hacyclic : ¬ Recursive aliases methods) {before after : List Struct}
    (hsplit : s.structs = before ++ after) {passed : List String} {owner : Option String}
    {path : List String} {site : Site} {t : SchemaType} {f : FieldType String}
    (hlow : Lowers aliases s.Names site t f) (hf : f.Populated)
    (href : ∀ name, f.ref? = some name → name ∈ before.map (·.name))
    (hocc : Occurs aliases methods site t) (hlead : LeadTo aliases passed t) :
    (plainType moduleName (plainAlias moduleName aliases passed) owner path t).run s.structs =
      .ok (f, s.structs) := by
  induction hlength : before.length using Nat.strongRecOn
    generalizing before after passed owner path site t f with
  | ind length ihlength =>
    -- Down to the next objects this is an induction on the type; past an object it starts anew.
    induction hlow generalizing passed owner path with
    | bool | number | string | generic => rfl
    | @enum _ members =>
      cases members with
      | nil => exact absurd rfl hf
      | cons m ms => rfl
    | array _ ih =>
      rw [plainType, Plain.bind_of_ok (ih hf href hocc.element hlead.element)]
      rfl
    | nullable _ ih =>
      rw [plainType, Plain.bind_of_ok (ih hf href hocc.inner hlead.inner)]
      rfl
    | @named _ n body _ hbody _ ih =>
      rw [plainType, plainAlias_defined (hlead.notMem hacyclic hocc hbody) hbody]
      exact ih hf href (hocc.definition hbody) (hlead.definition hbody)
    | @object site ps name hname =>
      have hdone : s.lowered.lookup site = some name :=
        hname.resolve_right fun hheld => by simp [ht.reserved] at hheld
      obtain ⟨u, hu, rfl, hall, hnodup⟩ := h.exists_struct hdone hocc
      obtain ⟨front, rest, hsplit', hless⟩ :=
        exists_split_of_name_mem h.names_nodup hsplit hu (href u.name rfl)
      have hfields : (plainProperties moduleName (plainAlias moduleName aliases passed) path
          ps).run s.structs = .ok (u.fields, s.structs) := by
        refine hall.plainProperties fun i p f hp hfi hlow path => ?_
        rw [Nat.zero_add] at hlow
        refine ihlength _ (hlength ▸ hless) hsplit' hlow ?_ (fun name hname => ?_)
          (hocc.property hp) (hlead.property (List.mem_of_getElem? hp)) rfl
        · exact h.populated u hu f (List.mem_of_getElem? hfi)
        · exact h.backward hacyclic front u _ hsplit' i name (by simp [refAt, hfi, hname])
      rw [plainType, plainObject_distinct hnodup,
        Plain.bind_of_ok ((Plain.bind_of_ok hfields).trans
          (plainStruct_earlier (find?_fields_eq ht.distinct hu)))]
      rfl

theorem plainObject_again (h : Underway moduleName aliases methods pending s) (ht : s.Tidy)
    (hacyclic : ¬ Recursive aliases methods) {passed : List String} (owner : Option String)
    {path : List String} {site : Site} {ps : List Property} {name : String}
    (hdone : s.lowered.lookup site = some name) (hocc : Occurs aliases methods site (.object ps))
    (hlead : LeadTo aliases passed (.object ps)) :
    (plainObject moduleName path ((owner.map .named).getD (.path path)) ps
      (plainProperties moduleName (plainAlias moduleName aliases passed) path ps)).run s.structs =
        .ok (name, s.structs) := by
  have hmem : name ∈ s.structs.map (·.name) := by
    obtain ⟨t, ht, rfl, -⟩ := h.exists_struct hdone hocc
    exact List.mem_map_of_mem ht
  have hagain : (plainType moduleName (plainAlias moduleName aliases passed) owner path
      (.object ps)).run s.structs = .ok (.struct name, s.structs) :=
    h.plainType_again ht hacyclic (List.append_nil _).symm (.object (.inl hdone)) trivial
      (by simpa [FieldType.ref?] using hmem) hocc hlead
  rw [plainType, StateT.run_bind, bind_eq_ok] at hagain
  obtain ⟨⟨n, structs⟩, hrun, hrest⟩ := hagain
  cases hrest
  exact hrun

end Underway

end

end SchemaStructs
