import Mathlib.Data.List.Nodup
import SchemaStructs.Proofs.Alias.Representable

/-!
Why the check rejects a type. It either names an alias without a definition, or it spells a closed
walk among the aliases: the trail of the search from the alias that it has met again.
-/

set_option autoImplicit false

namespace SchemaStructs

open Relation

inductive Layer where
  | property (name : String) (optional : Bool)
  | array
  | nullable
  deriving DecidableEq, Repr

namespace Layer

def label : Layer → String
  | .property name _ => name
  | .array => "[]"
  | .nullable => "?"

def isGuard : Layer → Bool
  | .property _ optional => optional
  | .array | .nullable => true

def isProperty : Layer → Bool
  | .property _ _ => true
  | .array | .nullable => false

end Layer

/-- The name `n` stands in the type, below the layers, the outermost first. -/
inductive Mentions : SchemaType → List Layer → String → Prop
  | named {n : String} : Mentions (.named n) [] n
  | array {t : SchemaType} {layers : List Layer} {n : String} (h : Mentions t layers n) :
      Mentions (.array t) (.array :: layers) n
  | nullable {t : SchemaType} {layers : List Layer} {n : String} (h : Mentions t layers n) :
      Mentions (.nullable t) (.nullable :: layers) n
  | property {ps : List Property} {p : Property} {layers : List Layer} {n : String} (hp : p ∈ ps)
      (h : Mentions p.type layers n) :
      Mentions (.object ps) (.property p.name p.optional :: layers) n

def Reference.through (layers : List Layer) (n : String) : Reference :=
  ⟨n, layers.map Layer.label, layers.any Layer.isProperty, layers.any Layer.isGuard⟩

mutual

theorem exists_mentions {r : Reference} (t : SchemaType) (hr : r ∈ t.references) :
    ∃ layers n, Mentions t layers n ∧ r = .through layers n := by
  match t with
  | .scalar _ | .generic | .enum _ => simp [SchemaType.references] at hr
  | .array element =>
    obtain ⟨q, hq, rfl⟩ := List.mem_map.1 hr
    obtain ⟨layers, n, h, rfl⟩ := exists_mentions element hq
    exact ⟨_, n, h.array, rfl⟩
  | .nullable inner =>
    obtain ⟨q, hq, rfl⟩ := List.mem_map.1 hr
    obtain ⟨layers, n, h, rfl⟩ := exists_mentions inner hq
    exact ⟨_, n, h.nullable, rfl⟩
  | .object ps =>
    obtain ⟨p, hp, layers, n, h, rfl⟩ := exists_mentions_property ps hr
    exact ⟨_, n, .property hp h, rfl⟩
  | .named n =>
    rw [List.mem_singleton.1 hr]
    exact ⟨[], n, .named, rfl⟩

theorem exists_mentions_property {r : Reference} (ps : List Property)
    (hr : r ∈ Property.references ps) : ∃ p ∈ ps, ∃ layers n, Mentions p.type layers n ∧
      r = .through (.property p.name p.optional :: layers) n := by
  match ps with
  | [] => simp [Property.references] at hr
  | ⟨name, type, optional⟩ :: ps =>
    rcases List.mem_append.1 hr with hr | hr
    · obtain ⟨q, hq, rfl⟩ := List.mem_map.1 hr
      obtain ⟨layers, n, h, rfl⟩ := exists_mentions type hq
      exact ⟨_, List.mem_cons_self, layers, n, h, rfl⟩
    · obtain ⟨p, hp, rest⟩ := exists_mentions_property ps hr
      exact ⟨p, List.mem_cons_of_mem _ hp, rest⟩

end

theorem mem_references_property {r : Reference} {ps : List Property} {p : Property} (hp : p ∈ ps)
    (hr : r ∈ p.type.references) : r.underProperty p.name p.optional ∈ Property.references ps := by
  induction ps with
  | nil => simp at hp
  | cons q ps ih =>
    rcases List.mem_cons.1 hp with rfl | hp
    · exact List.mem_append_left _ (List.mem_map_of_mem hr)
    · exact List.mem_append_right _ (ih hp)

/-- The references of a type are the names within it, each with all that lies around it. -/
theorem mem_references_iff {t : SchemaType} {r : Reference} :
    r ∈ t.references ↔ ∃ layers n, Mentions t layers n ∧ r = .through layers n := by
  refine ⟨exists_mentions t, ?_⟩
  rintro ⟨layers, n, h, rfl⟩
  induction h with
  | named => exact List.mem_singleton.2 rfl
  | array _ ih => exact List.mem_map_of_mem (f := Reference.underArray) ih
  | nullable _ ih => exact List.mem_map_of_mem (f := Reference.underNullable) ih
  | property hp _ ih => exact mem_references_property hp ih

/-- A walk from the alias `start`, which crosses allowed layers only. It leaves the aliases `names`
in order, and `spelled` holds after each of them the labels of the layers up to the next. -/
inductive Walk (aliases : Aliases) (allowed : Layer → Bool) (start : String) :
    String → List String → List String → Prop
  | stay : Walk aliases allowed start start [] []
  | step {a b : String} {names spelled : List String} {body : SchemaType} {layers : List Layer}
      (walk : Walk aliases allowed start a names spelled) (hbody : aliases.lookup a = some body)
      (mentions : Mentions body layers b) (crosses : ∀ l ∈ layers, allowed l = true) :
      Walk aliases allowed start b (names ++ [a]) (spelled ++ a :: layers.map Layer.label)

namespace Walk

variable {aliases : Aliases} {allowed : Layer → Bool} {start target : String}
  {names spelled : List String}

theorem mono {g : Aliases} (hg : ∀ n body, g.lookup n = some body → aliases.lookup n = some body)
    (h : Walk g allowed start target names spelled) :
    Walk aliases allowed start target names spelled := by
  induction h with
  | stay => exact .stay
  | step _ hbody mentions crosses ih => exact .step ih (hg _ _ hbody) mentions crosses

/-- A walk that leaves an alias begins with the one where it starts. -/
theorem head?_eq (h : Walk aliases allowed start target names spelled) (hne : names ≠ []) :
    names.head? = some start ∧ spelled.head? = some start := by
  induction h with
  | stay => exact absurd rfl hne
  | @step a b names spelled body layers walk hbody mentions crosses ih =>
    cases walk with
    | stay => exact ⟨rfl, rfl⟩
    | step =>
      obtain ⟨hnames, hspelled⟩ := ih (by simp)
      refine ⟨?_, ?_⟩ <;> rw [List.head?_append]
      · rw [hnames]
        rfl
      · rw [hspelled]
        rfl

end Walk

def Follows (keep : Reference → Bool) (allowed : Layer → Bool) : Prop :=
  ∀ layers n, keep (.through layers n) = true → ∀ l ∈ layers, allowed l = true

theorem follows_unguarded : Follows Reference.unguarded fun l => !l.isGuard := by
  intro layers n h
  simpa [Reference.unguarded, Reference.through] using h

theorem follows_outsideObjects : Follows Reference.outsideObjects fun l => !l.isProperty := by
  intro layers n h
  simpa [Reference.outsideObjects, Reference.through] using h

section

variable {graph : Aliases} {keep : Reference → Bool} {allowed : Layer → Bool}
  {done : List String} {name start : String} {trail : List Stop}

/-- The trail from one of its stops on is a walk, spelled as the search spells it. -/
theorem Trail.walk (h : Trail graph keep done name trail) (hfollows : Follows keep allowed)
    (hnodup : (trailNames trail).Nodup) (hstart : start ∈ trailNames trail) :
    ∃ names, Walk graph allowed start name names (spellFrom start trail) ∧ names.Nodup ∧
      names ≠ [] ∧ ∀ n ∈ names, n ∈ trailNames trail := by
  induction h with
  | root => simp [trailNames] at hstart
  | @stop from' via todo trail kept entered rest ih =>
    obtain ⟨hnew, hrestNodup⟩ := List.nodup_cons.1 hnodup
    obtain ⟨body, hbody, htodo, -⟩ := entered
    obtain ⟨layers, n, mentions, rfl⟩ := mem_references_iff.1 (htodo via List.mem_cons_self)
    have hcrosses := hfollows layers n kept
    -- The walk begins at the stop that is looked for; those further out are left off.
    by_cases hhere : from' = start
    · subst hhere
      refine ⟨[from'], ?_, List.nodup_singleton _, by simp, by simp [trailNames]⟩
      rw [spellFrom, if_pos rfl]
      exact .step .stay hbody mentions hcrosses
    · have hrest : start ∈ trailNames trail := by
        rcases List.mem_cons.1 hstart with heq | hmem
        · exact absurd heq.symm hhere
        · exact hmem
      obtain ⟨names, walk, hnames, -, hsub⟩ := ih hrestNodup hrest
      refine ⟨names ++ [from'], ?_, ?_, by simp, fun m hm => ?_⟩
      · rw [spellFrom, if_neg hhere]
        exact .step walk hbody mentions hcrosses
      · rw [← List.concat_eq_append, List.nodup_concat]
        exact ⟨fun hmem => hnew (hsub _ hmem), hnames⟩
      · rcases List.mem_append.1 hm with hm | hm
        · exact List.mem_cons_of_mem _ (hsub m hm)
        · rw [List.mem_singleton.1 hm]
          exact List.mem_cons_self

/-- The cycle is spelled as a closed walk on which no alias comes twice. -/
def Cycle.Spells (aliases : Aliases) (allowed : Layer → Bool) (cycle : Cycle) : Prop :=
  ∃ names spelled, Walk aliases allowed cycle.start cycle.start names spelled ∧ names ≠ [] ∧
    names.Nodup ∧ cycle.walk = spelled ++ [cycle.start]

/-- The reference that closes a cycle leads back to a stop; from there on the trail is the walk. -/
theorem Moment.Placed.spells {roots : List String} {cycle : Cycle}
    (h : Moment.Placed keep graph roots (.found cycle done)) (hfollows : Follows keep allowed) :
    cycle.Spells graph allowed := by
  cases h with
  | found way kept seen =>
    obtain ⟨names, walk, hnames, hne, -⟩ :=
      (Trail.stop kept way.entered way.behind).walk hfollows way.once seen
    exact ⟨names, _, walk, hne, hnames, rfl⟩

end

section

variable {aliases : Aliases} {t : SchemaType}

/-- What a bad cycle is made of: layers that are no guards, or layers that are no properties. -/
def badKinds : List (Layer → Bool) := [fun l => !l.isGuard, fun l => !l.isProperty]

theorem badCycle_spells {g : Aliases} {cycle : Cycle} (hreach : t.reach aliases = .ok g)
    (h : badCycle g t.targets = some cycle) : Reaches aliases Reference.any t cycle.start ∧
      ∃ allowed ∈ badKinds, cycle.Spells aliases allowed := by
  have part := t.reach_closed hreach
  have hkind : ∀ keep allowed, Follows keep allowed → findCycle keep g t.targets = some cycle →
      Reaches aliases Reference.any t cycle.start ∧ cycle.Spells aliases allowed := by
    intro keep allowed hfollows hfind
    have hroots : ∀ n ∈ t.targets, n ∈ g.map (·.1) :=
      fun n hn => (SchemaType.mem_reach hreach).2 (SchemaType.reaches_target hn)
    obtain ⟨done, placed⟩ := placed_of_findCycle part.closed hroots hfind
    obtain ⟨root, hroot, path, -⟩ := placed.onCycle
    have hmem := hroots root hroot
    obtain ⟨names, spelled, walk, rest⟩ := placed.spells hfollows
    exact ⟨(SchemaType.mem_reach hreach).1 (part.mem_of_path hmem path), names, spelled,
      walk.mono fun _ _ => part.lookup_mono, rest⟩
  rw [badCycle] at h
  split at h
  · next found hfind =>
    cases h
    obtain ⟨hstart, hspells⟩ := hkind _ _ follows_unguarded hfind
    exact ⟨hstart, _, List.mem_cons_self, hspells⟩
  · obtain ⟨hstart, hspells⟩ := hkind _ _ follows_outsideObjects h
    exact ⟨hstart, _, List.mem_cons_of_mem _ List.mem_cons_self, hspells⟩

/-- The check fails either before it looks for cycles, or with a bad cycle. -/
theorem represent_eq_error {e : HeaderError} (h : t.represent aliases = .error e) :
    (∃ n, e = .unknownAlias n ∧ Reaches aliases Reference.any t n ∧ aliases.lookup n = none) ∨
      ∃ g cycle, t.reach aliases = .ok g ∧ badCycle g t.targets = some cycle ∧
        e = .recursiveAlias cycle.start cycle.walk := by
  rcases bind_eq_error.1 h with h | ⟨g, hreach, h⟩
  · obtain ⟨n, rfl, hn, hnone⟩ := reachFrom_error h fun n hn => SchemaType.reaches_target hn
    exact .inl ⟨n, rfl, hn, hnone⟩
  · split at h
    · next cycle hcycle => exact .inr ⟨g, cycle, hreach, hcycle, (Except.error.inj h).symm⟩
    · cases h

theorem exists_unknownAlias_iff : (∃ n, t.represent aliases = .error (.unknownAlias n)) ↔
    ∃ n, Reaches aliases Reference.any t n ∧ aliases.lookup n = none := by
  constructor
  · rintro ⟨n, h⟩
    rcases represent_eq_error h with ⟨m, -, hm⟩ | ⟨_, _, -, -, he⟩
    · exact ⟨m, hm⟩
    · cases he
  · rintro ⟨n, hn, hnone⟩
    cases hreach : t.reach aliases with
    | error e =>
      obtain ⟨m, rfl, -⟩ := reachFrom_error hreach fun n hn => SchemaType.reaches_target hn
      exact ⟨m, bind_eq_error.2 (.inl hreach)⟩
    | ok g =>
      obtain ⟨body, hbody⟩ := SchemaType.reach_eq_ok_iff.1 ⟨g, hreach⟩ n hn
      simp [hnone] at hbody

/-- What can be wrong with a type: it reaches an alias without a definition, or a closed walk leads
from an alias along names in definitions back to it, without another alias twice, and either past
no guard or past no property. -/
inductive Fault (aliases : Aliases) (t : SchemaType) : HeaderError → Prop
  | undefined {n : String} (reaches : Reaches aliases Reference.any t n)
      (undefined : aliases.lookup n = none) : Fault aliases t (.unknownAlias n)
  | badCycle {a : String} {allowed : Layer → Bool} {names spelled path : List String}
      (defined : Defined aliases t) (reaches : Reaches aliases Reference.any t a)
      (kind : allowed ∈ badKinds) (walk : Walk aliases allowed a a names spelled)
      (leaves : names ≠ []) (once : names.Nodup) (spells : path = spelled ++ [a])
      (starts : path.head? = some a) : Fault aliases t (.recursiveAlias a path)

/-- The check fails at an alias without a definition just if the type reaches one, and whatever it
reports is there. -/
theorem represent_rejects (aliases : Aliases) (t : SchemaType) :
    ((∃ n, t.represent aliases = .error (.unknownAlias n)) ↔
      ∃ n, Reaches aliases Reference.any t n ∧ aliases.lookup n = none) ∧
    ∀ e, t.represent aliases = .error e → Fault aliases t e := by
  refine ⟨exists_unknownAlias_iff, fun e h => ?_⟩
  rcases represent_eq_error h with ⟨n, rfl, hn, hnone⟩ | ⟨g, cycle, hreach, hcycle, rfl⟩
  · exact .undefined hn hnone
  · obtain ⟨hstart, allowed, hkind, names, spelled, walk, hne, hnodup, hwalk⟩ :=
      badCycle_spells hreach hcycle
    have hdefined : Defined aliases t := SchemaType.reach_eq_ok_iff.1 ⟨g, hreach⟩
    refine .badCycle hdefined hstart hkind walk hne hnodup hwalk ?_
    rw [hwalk, List.head?_append, (walk.head?_eq hne).2]
    rfl

/-- One way from A to B has a guard, the other has none. -/
def besideGuarded : Aliases :=
  [("A", .object [⟨"a", .named "B", true⟩, ⟨"b", .object [⟨"c", .named "B", false⟩], false⟩]),
    ("B", .object [⟨"back", .named "A", false⟩])]

theorem represent_rejects_beside :
    (SchemaType.array (.named "A")).represent besideGuarded =
        .error (.recursiveAlias "A" ["A", "b", "c", "B", "back", "A"]) ∧
      Fault besideGuarded (.array (.named "A"))
        (.recursiveAlias "A" ["A", "b", "c", "B", "back", "A"]) := by
  have h : (SchemaType.array (.named "A")).represent besideGuarded =
      .error (.recursiveAlias "A" ["A", "b", "c", "B", "back", "A"]) :=
    eq_error_of_map (f := fun _ => ()) (by decide +kernel)
  exact ⟨h, (represent_rejects _ _).2 _ h⟩

end

end SchemaStructs
