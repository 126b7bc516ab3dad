import Mathlib.Data.List.Forall2
import SchemaStructs.Proofs.Json.Record
import SchemaStructs.Proofs.NameMap
import SchemaStructs.Schema.Format

/-!
The JSON form of schemas. A schema can be spelled in several ways, with its records as objects or
arrays, their keys in any order and beside others, and defaults left out. Every spelling is read as
the schema, and what is written is one of them.
-/

set_option autoImplicit false

namespace SchemaStructs

open Json (orDefault listOf? mapOf?)

def Form.field (f : Form) : String × Option Json := ("type", some (.string f.tag))

mutual

inductive Spells : SchemaType → Json → Prop
  | scalar {j : Json} {kind : Scalar}
      (h : j.Holds [Form.scalar.field, ("kind", some (.string kind.tag))]) :
      Spells (.scalar kind) j
  | array {j element : Json} {t : SchemaType}
      (h : j.Holds [Form.array.field, ("elementType", some element)]) (spells : Spells t element) :
      Spells (.array t) j
  | object {j : Json} {js : List Json} {ps : List Property}
      (h : j.Holds [Form.object.field, ("properties", some (.array js))])
      (spells : SpellsAll ps js) : Spells (.object ps) j
  | bare {j : Json} (h : j.Holds [Form.object.field, ("properties", none)]) :
      Spells (.object []) j
  | named {j : Json} {name : String}
      (h : j.Holds [Form.named.field, ("name", some (.string name))]) : Spells (.named name) j
  | generic {j : Json} (h : j.Holds [Form.generic.field]) : Spells .generic j
  | nullable {j inner : Json} {t : SchemaType}
      (h : j.Holds [Form.nullable.field, ("inner", some inner)]) (spells : Spells t inner) :
      Spells (.nullable t) j
  | enum {j : Json} {members : List String}
      (h : j.Holds [Form.enum.field, ("members", some (.ofTexts members))]) :
      Spells (.enum members) j

inductive SpellsProperty : Property → Json → Prop
  | flagged {j type : Json} {p : Property}
      (h : j.Holds [("name", some (.string p.name)), ("type", some type),
        ("optional", some (.bool p.optional))])
      (spells : Spells p.type type) : SpellsProperty p j
  | required {j type : Json} {p : Property}
      (h : j.Holds [("name", some (.string p.name)), ("type", some type), ("optional", none)])
      (always : p.optional = false) (spells : Spells p.type type) : SpellsProperty p j

inductive SpellsAll : List Property → List Json → Prop
  | nil : SpellsAll [] []
  | cons {p : Property} {ps : List Property} {j : Json} {js : List Json}
      (head : SpellsProperty p j) (tail : SpellsAll ps js) : SpellsAll (p :: ps) (j :: js)

end

@[simp] theorem readings_eq (js : List Json) : Json.readings js = js.map Json.reading := by
  induction js with
  | nil => rfl
  | cons j js ih => rw [Json.readings, ih, List.map_cons]

@[simp] theorem entryReadings_eq (es : List (String × Json)) :
    Json.entryReadings es = es.map fun e => (e.1, e.2.reading) := by
  induction es with
  | nil => rfl
  | cons e es ih => rw [Json.entryReadings, ih, List.map_cons]

/-- Within a type a record is read from the readings of its parts. -/
theorem Json.Holds.exists_reading {j : Json} {fields : List (String × Option Json)}
    (h : j.Holds fields) : ∃ c : Container Reading,
      c.Stands (fields.map fun f => (f.1, f.2.map Json.reading)) ∧
      j.reading.type = Reading.type? c ∧ j.reading.property = Reading.property? c := by
  obtain ⟨c, hc, hstands⟩ := h
  refine ⟨c.map Json.reading, hstands.map _, ?_⟩
  cases j with
  | array items =>
    cases hc
    rw [Json.reading, readings_eq]
    exact ⟨rfl, rfl⟩
  | object entries =>
    cases hc
    rw [Json.reading, entryReadings_eq]
    exact ⟨rfl, rfl⟩
  | _ => cases hc

@[simp] theorem Form.ofTag?_tag (f : Form) : Form.ofTag? f.tag = some f := by
  cases f <;> rfl

@[simp] theorem Scalar.ofTag?_tag (k : Scalar) : Scalar.ofTag? k.tag = some k := by
  cases k <;> rfl

@[simp] theorem texts_ofTexts (members : List String) :
    (Json.ofTexts members).reading.texts = some members := by
  have hread : ∀ m ∈ members, ((Json.reading ∘ Json.string) m).text = some (id m) :=
    fun _ _ => rfl
  have hall := mapM_map_eq_some hread
  rw [List.map_id] at hall
  rw [Json.ofTexts, Json.reading, readings_eq, List.map_map]
  exact hall

theorem Json.Holds.exists_rest {j : Json} {f : Form} {fields : List (String × Option Json)}
    (h : j.Holds (f.field :: fields)) (hnew : "type" ∉ fields.map (·.1)) :
    ∃ (tag : Reading) (c rest : Container Reading), j.reading.type = Reading.type? c ∧
      c.uncons "type" = some (tag, rest) ∧ tag.form = some f ∧
      rest.fields (fields.map (·.1)) = some (fields.map fun e => e.2.map Json.reading) := by
  obtain ⟨c, hstands, htype, -⟩ := h.exists_reading
  rw [List.map_cons] at hstands
  obtain ⟨rest, huncons, hrest⟩ := hstands.uncons (by rwa [List.map_map])
  have hfields := hrest.fields_eq
  rw [List.map_map, List.map_map] at hfields
  exact ⟨_, c, rest, htype, huncons, f.ofTag?_tag, hfields⟩

theorem Json.Holds.exists_field {j : Json} {f : Form} {name : String} {o : Option Json}
    (h : j.Holds [f.field, (name, o)]) (hne : "type" ≠ name) :
    ∃ (tag : Reading) (c rest : Container Reading), j.reading.type = Reading.type? c ∧
      c.uncons "type" = some (tag, rest) ∧ tag.form = some f ∧
      Reading.field? name rest = some (o.map Json.reading) := by
  obtain ⟨tag, c, rest, htype, huncons, hform, hfields⟩ := h.exists_rest (by simpa using hne)
  refine ⟨tag, c, rest, htype, huncons, hform, ?_⟩
  simp only [List.map_cons, List.map_nil] at hfields
  rw [Reading.field?, hfields]
  rfl

mutual

/-- Whatever spells a type is read as the type, where it stands in another. -/
theorem Spells.reading (t : SchemaType) {j : Json} (h : Spells t j) :
    j.reading.type = some t := by
  match t with
  | .scalar kind =>
    cases h with
    | scalar h =>
      obtain ⟨tag, c, rest, htype, huncons, hform, hfield⟩ := h.exists_field (by decide)
      have hkind : (Json.string kind.tag).reading.scalar = some kind := kind.ofTag?_tag
      simp [htype, Reading.type?, huncons, hform, Reading.required?, hfield, hkind]
  | .array element =>
    cases h with
    | array h spells =>
      obtain ⟨tag, c, rest, htype, huncons, hform, hfield⟩ := h.exists_field (by decide)
      have helement := Spells.reading element spells
      simp [htype, Reading.type?, huncons, hform, Reading.required?, hfield, helement]
  | .object ps =>
    cases h with
    | @object _ js _ h spells =>
      obtain ⟨tag, c, rest, htype, huncons, hform, hfield⟩ := h.exists_field (by decide)
      have hall : (Json.array js).reading.properties = some ps := by
        rw [Json.reading, readings_eq]
        exact SpellsAll.reading ps spells
      simp [htype, Reading.type?, huncons, hform, hfield, orDefault, hall]
    | bare h =>
      obtain ⟨tag, c, rest, htype, huncons, hform, hfield⟩ := h.exists_field (by decide)
      simp [htype, Reading.type?, huncons, hform, hfield, orDefault]
  | .named name =>
    cases h with
    | named h =>
      obtain ⟨tag, c, rest, htype, huncons, hform, hfield⟩ := h.exists_field (by decide)
      have hname : (Json.string name).reading.text = some name := rfl
      simp [htype, Reading.type?, huncons, hform, Reading.required?, hfield, hname]
  | .generic =>
    cases h with
    | generic h =>
      obtain ⟨tag, c, rest, htype, huncons, hform, hfields⟩ := h.exists_rest (by simp)
      rw [List.map_nil, List.map_nil] at hfields
      simp [htype, Reading.type?, huncons, hform, hfields]
  | .nullable inner =>
    cases h with
    | nullable h spells =>
      obtain ⟨tag, c, rest, htype, huncons, hform, hfield⟩ := h.exists_field (by decide)
      have hinner := Spells.reading inner spells
      simp [htype, Reading.type?, huncons, hform, Reading.required?, hfield, hinner]
  | .enum members =>
    cases h with
    | enum h =>
      obtain ⟨tag, c, rest, htype, huncons, hform, hfield⟩ := h.exists_field (by decide)
      have hmembers := texts_ofTexts members
      simp [htype, Reading.type?, huncons, hform, Reading.required?, hfield, hmembers]

theorem SpellsAll.reading (ps : List Property) {js : List Json} (h : SpellsAll ps js) :
    (js.map Json.reading).mapM Reading.property = some ps := by
  match ps with
  | [] =>
    cases h
    rfl
  | ⟨name, t, optional⟩ :: ps =>
    cases h with
    | cons head tail =>
      have hps := SpellsAll.reading ps tail
      have hname : (Json.string name).reading.text = some name := rfl
      cases head with
      | flagged h spells =>
        obtain ⟨c, hstands, -, hproperty⟩ := h.exists_reading
        have hfields := hstands.fields_eq
        have ht := Spells.reading t spells
        have hflag : (Json.bool optional).reading.flag = some optional := rfl
        simp only [List.map_cons, List.map_nil, Option.map_some] at hfields
        simp [hproperty, Reading.property?, hfields, hname, ht, orDefault, hflag, hps]
      | required h always spells =>
        obtain ⟨c, hstands, -, hproperty⟩ := h.exists_reading
        have hfields := hstands.fields_eq
        have ht := Spells.reading t spells
        simp only [List.map_cons, List.map_nil, Option.map_some, Option.map_none] at hfields
        simp only at always
        simp [hproperty, Reading.property?, hfields, hname, ht, orDefault, always, hps]

end

@[simp] theorem areSound_texts (members : List String) :
    Json.areSound (members.map Json.string) = true := by
  induction members with
  | nil => rfl
  | cons m members ih => simpa [Json.areSound, Json.isSound] using ih

mutual

@[simp] theorem isSound_toJson (t : SchemaType) : t.toJson.isSound = true := by
  match t with
  | .scalar _ | .named _ | .generic =>
    simp [SchemaType.toJson, Form.entry, Json.isSound, Json.areSoundEntries]
  | .enum members =>
    simp [SchemaType.toJson, Form.entry, Json.isSound, Json.areSoundEntries, Json.ofTexts,
      areSound_texts members]
  | .array t | .nullable t =>
    simp [SchemaType.toJson, Form.entry, Json.isSound, Json.areSoundEntries, isSound_toJson t]
  | .object ps =>
    simp [SchemaType.toJson, Form.entry, Json.isSound, Json.areSoundEntries, areSound_toJsons ps]

theorem areSound_toJsons (ps : List Property) : Json.areSound (Property.toJsons ps) = true := by
  match ps with
  | [] => rfl
  | ⟨name, t, optional⟩ :: ps =>
    simp [Property.toJsons, Json.isSound, Json.areSound, Json.areSoundEntries, isSound_toJson t,
      areSound_toJsons ps]

end

mutual

theorem spells_toJson (t : SchemaType) : Spells t t.toJson := by
  match t with
  | .scalar _ => exact .scalar (Json.holds_object (by simp [Form.entry]))
  | .array t => exact .array (Json.holds_object (by simp [Form.entry])) (spells_toJson t)
  | .object ps => exact .object (Json.holds_object (by simp [Form.entry])) (spellsAll_toJsons ps)
  | .named _ => exact .named (Json.holds_object (by simp [Form.entry]))
  | .generic => exact .generic (Json.holds_object (by simp))
  | .nullable t => exact .nullable (Json.holds_object (by simp [Form.entry])) (spells_toJson t)
  | .enum _ => exact .enum (Json.holds_object (by simp [Form.entry]))

theorem spellsAll_toJsons (ps : List Property) : SpellsAll ps (Property.toJsons ps) := by
  match ps with
  | [] => exact .nil
  | ⟨_, t, _⟩ :: ps =>
    exact .cons (.flagged (Json.holds_object (by simp)) (spells_toJson t)) (spellsAll_toJsons ps)

end

theorem Spells.tagged {t : SchemaType} {j : Json} (h : Spells t j) :
    ∃ (f : Form) (fields : List (String × Option Json)), j.Holds (f.field :: fields) ∧
      "type" ∉ fields.map (·.1) := by
  cases h with
  | scalar h | array h | object h | bare h | named h | generic h | nullable h | enum h =>
    exact ⟨_, _, h, by simp⟩

/-- The spellings of a type that stands in no other; what it holds beside its fields is sound. -/
def SchemaType.SpelledBy (t : SchemaType) (j : Json) : Prop := Spells t j ∧ j.isSound = true

section

variable {α : Type}

/-- A field that may be left out where it has its default. -/
inductive OrLeftOut (spelledBy : α → Json → Prop) (default : α) : α → Option Json → Prop
  | given {a : α} {j : Json} (h : spelledBy a j) : OrLeftOut spelledBy default a (some j)
  | leftOut : OrLeftOut spelledBy default default none

def ListSpelledBy (spelledBy : α → Json → Prop) (xs : List α) (j : Json) : Prop :=
  ∃ js, j = .array js ∧ List.Forall₂ spelledBy xs js

/-- An object of bindings, where the last one of a name holds. -/
def MapSpelledBy (spelledBy : α → Json → Prop) (m : NameMap α) (j : Json) : Prop :=
  ∃ bindings es, j = .object es ∧
    List.Forall₂ (fun b e => b.1 = e.1 ∧ spelledBy b.2 e.2) bindings es ∧
    NameMap.ofList bindings = m

/-- Values are read from all their spellings, and what is written for a value is one of them. So a
value comes back from what is written for it, and writing what has been read loses nothing. -/
structure RoundTrips (read : Json → Option α) (write : α → Json)
    (spelledBy : α → Json → Prop) : Prop where
  reads : ∀ a j, spelledBy a j → read j = some a
  writes : ∀ a, spelledBy a (write a)
  restores : ∀ a, read (write a) = some a
  normalizes : ∀ j a, read j = some a → read (write a) = some a

variable {read : Json → Option α} {write : α → Json} {spelledBy : α → Json → Prop}

theorem RoundTrips.of_spelledBy (reads : ∀ a j, spelledBy a j → read j = some a)
    (writes : ∀ a, spelledBy a (write a)) : RoundTrips read write spelledBy :=
  ⟨reads, writes, fun a => reads a _ (writes a), fun _ a _ => reads a _ (writes a)⟩

theorem OrLeftOut.read_eq {default a : α} {o : Option Json} (h : OrLeftOut spelledBy default a o)
    (reads : ∀ a j, spelledBy a j → read j = some a) : orDefault default read o = some a := by
  cases h with
  | given h => exact reads _ _ h
  | leftOut => rfl

theorem ListSpelledBy.read_eq {xs : List α} {j : Json} (h : ListSpelledBy spelledBy xs j)
    (reads : ∀ a j, spelledBy a j → read j = some a) : listOf? read j = some xs := by
  obtain ⟨js, rfl, hall⟩ := h
  simp only [listOf?, Json.items?, Option.bind_eq_bind, Option.bind_some]
  induction hall with
  | nil => rfl
  | cons hx _ ih => simp [List.mapM_cons, reads _ _ hx, ih]

theorem MapSpelledBy.read_eq {m : NameMap α} {j : Json} (h : MapSpelledBy spelledBy m j)
    (reads : ∀ a j, spelledBy a j → read j = some a) : mapOf? read j = some m := by
  obtain ⟨bindings, es, rfl, hall, rfl⟩ := h
  have hbindings : es.mapM (fun e => (read e.2).bind fun v => some (e.1, v)) = some bindings := by
    induction hall with
    | nil => rfl
    | @cons b e bindings es hb _ ih =>
      obtain ⟨hname, hvalue⟩ := hb
      simp [List.mapM_cons, reads _ _ hvalue, ih, ← hname]
  simp [mapOf?, Json.entries?, hbindings]

theorem listSpelledBy_map (writes : ∀ a, spelledBy a (write a)) (xs : List α) :
    ListSpelledBy spelledBy xs (.array (xs.map write)) := by
  refine ⟨_, rfl, ?_⟩
  rw [List.forall₂_map_right_iff]
  exact List.forall₂_same.2 fun a _ => writes a

theorem mapSpelledBy_ofMap (writes : ∀ a, spelledBy a (write a)) (m : NameMap α) :
    MapSpelledBy spelledBy m (.ofMap write m) := by
  refine ⟨m.entries, _, rfl, ?_, m.ofList_entries⟩
  rw [List.forall₂_map_right_iff]
  exact List.forall₂_same.2 fun e _ => ⟨rfl, writes e.2⟩

end

def Param.SpelledBy (p : Param) (j : Json) : Prop :=
  ∃ type, j.Holds [("name", some (.string p.name)), ("type", some type)] ∧
    p.type.SpelledBy type

def Method.SpelledBy (m : Method) (j : Json) : Prop :=
  ∃ params result, j.Holds [("name", some (.string m.name)), ("params", params),
      ("returnType", result)] ∧
    OrLeftOut (ListSpelledBy Param.SpelledBy) [] m.params params ∧
    OrLeftOut SchemaType.SpelledBy (.scalar .void) m.result result

def Module.SpelledBy (m : Module) (j : Json) : Prop :=
  ∃ aliases methods, j.Holds [("aliases", aliases), ("methods", methods)] ∧
    OrLeftOut (MapSpelledBy SchemaType.SpelledBy) .empty m.aliases aliases ∧
    OrLeftOut (ListSpelledBy Method.SpelledBy) [] m.methods methods

def Document.SpelledBy (d : Document) (j : Json) : Prop :=
  ∃ modules, j.Holds [("modules", modules)] ∧
    OrLeftOut (MapSpelledBy Module.SpelledBy) .empty d.modules modules

theorem SchemaType.roundTrips : RoundTrips ofJson? toJson SpelledBy := by
  refine .of_spelledBy (fun t j h => ?_) fun t => ⟨spells_toJson t, isSound_toJson t⟩
  obtain ⟨hspells, hsound⟩ := h
  obtain ⟨f, fields, ⟨c, hc, hstands⟩, hnew⟩ := hspells.tagged
  obtain ⟨rest, huncons, -⟩ := hstands.uncons hnew
  simp [ofJson?, hc, huncons, Json.text?, hsound, hspells.reading]

theorem Param.roundTrips : RoundTrips ofJson? toJson SpelledBy := by
  refine .of_spelledBy (fun p j h => ?_) fun p => ?_
  · obtain ⟨type, h, htype⟩ := h
    have hfields := h.fields?_eq
    simp only [List.map_cons, List.map_nil] at hfields
    simp [ofJson?, hfields, Json.text?, SchemaType.roundTrips.reads _ _ htype]
  · exact ⟨_, Json.holds_object (by simp), SchemaType.roundTrips.writes p.type⟩

theorem Method.roundTrips : RoundTrips ofJson? toJson SpelledBy := by
  refine .of_spelledBy (fun m j h => ?_) fun m => ?_
  · obtain ⟨params, result, h, hparams, hresult⟩ := h
    have hfields := h.fields?_eq
    have hps := hparams.read_eq fun _ _ h => h.read_eq Param.roundTrips.reads
    have hr := hresult.read_eq SchemaType.roundTrips.reads
    simp only [List.map_cons, List.map_nil] at hfields
    simp [ofJson?, hfields, Json.text?, hps, hr]
  · exact ⟨_, _, Json.holds_object (by simp),
      .given (listSpelledBy_map Param.roundTrips.writes m.params),
      .given (SchemaType.roundTrips.writes m.result)⟩

theorem Module.roundTrips : RoundTrips ofJson? toJson SpelledBy := by
  refine .of_spelledBy (fun m j h => ?_) fun m => ?_
  · obtain ⟨aliases, methods, h, haliases, hmethods⟩ := h
    have hfields := h.fields?_eq
    have has := haliases.read_eq fun _ _ h => h.read_eq SchemaType.roundTrips.reads
    have hms := hmethods.read_eq fun _ _ h => h.read_eq Method.roundTrips.reads
    simp only [List.map_cons, List.map_nil] at hfields
    simp [ofJson?, hfields, has, hms]
  · exact ⟨_, _, Json.holds_object (by simp),
      .given (mapSpelledBy_ofMap SchemaType.roundTrips.writes m.aliases),
      .given (listSpelledBy_map Method.roundTrips.writes m.methods)⟩

theorem Document.roundTrips : RoundTrips ofJson? toJson SpelledBy := by
  refine .of_spelledBy (fun d j h => ?_) fun d => ?_
  · obtain ⟨modules, h, hmodules⟩ := h
    have hfields := h.fields?_eq
    have hms := hmodules.read_eq fun _ _ h => h.read_eq Module.roundTrips.reads
    simp only [List.map_cons, List.map_nil] at hfields
    simp [ofJson?, hfields, hms]
  · exact ⟨_, Json.holds_object (by simp),
      .given (mapSpelledBy_ofMap Module.roundTrips.writes d.modules)⟩

/-- Schemas in whole and in part survive being written and read. -/
theorem schema_roundTrips :
    RoundTrips Document.ofJson? Document.toJson Document.SpelledBy ∧
    RoundTrips Module.ofJson? Module.toJson Module.SpelledBy ∧
    RoundTrips Method.ofJson? Method.toJson Method.SpelledBy ∧
    RoundTrips Param.ofJson? Param.toJson Param.SpelledBy ∧
    RoundTrips SchemaType.ofJson? SchemaType.toJson SchemaType.SpelledBy :=
  ⟨Document.roundTrips, Module.roundTrips, Method.roundTrips, Param.roundTrips,
    SchemaType.roundTrips⟩

end SchemaStructs
