import Mathlib.Data.List.Chain
import Mathlib.Data.List.Nodup
import SchemaStructs.Proofs.Alias.Chain

/-!
The way that definitions lead, past as many names as there are. Following a type goes this way up
to a type that is no name, a name without a definition or a name that it has passed before. One of
them comes, and only one can be first.
-/

set_option autoImplicit false

namespace SchemaStructs

open Relation

variable {aliases : Aliases} {t : SchemaType} {c d : Chain}

inductive Hop (aliases : Aliases) : Chain → Chain → Prop
  | pass {names : List String} {name : String} {body : SchemaType}
      (hbody : aliases.lookup name = some body) :
      Hop aliases ⟨names, .named name⟩ ⟨names ++ [name], body⟩

/-- Definitions lead from the type past the names of the chain, which need not be different, to
the type of the chain. -/
def Leads (aliases : Aliases) (t : SchemaType) (c : Chain) : Prop :=
  ReflTransGen (Hop aliases) ⟨[], t⟩ c

/-- Each name of the chain is defined as the next, the first is the type that is followed, and the
last is defined as the type of the chain. -/
structure Chain.Joins (aliases : Aliases) (t : SchemaType) (c : Chain) : Prop where
  starts : (c.names = [] ∧ c.type = t) ∨ ∃ name, t = .named name ∧ c.names.head? = some name
  hops : c.names.IsChain (HopsTo aliases)
  ends : ∀ name, c.defining? = some name → aliases.lookup name = some c.type

/-- The chain has come to a name that it has passed. -/
def Chain.Recurs (c : Chain) : Prop := ∃ name ∈ c.names, c.type = .named name

def Proceeds (aliases : Aliases) (c d : Chain) : Prop := ¬ c.Recurs ∧ Hop aliases c d

inductive Stops (aliases : Aliases) : Chain → Except HeaderError Chain → Prop
  | plain {c : Chain} (plain : ∀ name, c.type ≠ .named name) : Stops aliases c (.ok c)
  | undefined {names : List String} {name : String} (fresh : name ∉ names)
      (undefined : aliases.lookup name = none) :
      Stops aliases ⟨names, .named name⟩ (.error (.unknownAlias name))
  | recurs {names : List String} {name : String} (passed : name ∈ names) :
      Stops aliases ⟨names, .named name⟩ (.error (.recursiveAlias name (names ++ [name])))

theorem not_recurs_iff {names : List String} {name : String} :
    ¬ Chain.Recurs ⟨names, .named name⟩ ↔ name ∉ names := by
  simp [Chain.Recurs]

namespace Hop

theorem rightUnique : Relator.RightUnique (Hop aliases) := by
  rintro _ _ _ ⟨hbody⟩ ⟨hbody'⟩
  rw [hbody, Option.some.injEq] at hbody'
  rw [hbody']

theorem names_grow (h : ReflTransGen (Hop aliases) c d) : c.names <+: d.names := by
  induction h with
  | refl => exact List.prefix_rfl
  | tail _ hop ih =>
    obtain ⟨-⟩ := hop
    exact ih.trans (List.prefix_append _ _)

/-- A hop repeats a name if the chain has come back to one, and not otherwise. -/
theorem nodup_iff (hop : Hop aliases c d) : d.names.Nodup ↔ ¬ c.Recurs ∧ c.names.Nodup := by
  obtain ⟨-⟩ := hop
  rw [← List.concat_eq_append, List.nodup_concat, not_recurs_iff]

theorem nodup_of_path (h : ReflTransGen (Hop aliases) c d) (hd : d.names.Nodup) : c.names.Nodup :=
  hd.sublist (names_grow h).sublist

/-- Past a name that it has passed before no chain is without repetition. -/
theorem eq_of_recurs (hc : c.Recurs) (h : ReflTransGen (Hop aliases) c d) (hd : d.names.Nodup) :
    d = c := by
  rcases h.cases_head with rfl | ⟨e, hop, rest⟩
  · rfl
  · exact absurd hc (hop.nodup_iff.1 (nodup_of_path rest hd)).1

end Hop

theorem Hop.joins (hop : Hop aliases c d) (h : c.Joins aliases t) : d.Joins aliases t := by
  obtain ⟨hbody⟩ := hop
  obtain ⟨hstarts, hhops, hends⟩ := h
  refine ⟨.inr ?_, ?_, fun m hm => ?_⟩
  · rcases hstarts with ⟨rfl, rfl⟩ | ⟨m, rfl, hhead⟩
    · exact ⟨_, rfl, rfl⟩
    · exact ⟨m, rfl, by rw [List.head?_append, hhead]; rfl⟩
  · refine hhops.append (.singleton _) fun a ha b hb => ?_
    cases hb
    exact hends a ha
  · rw [Chain.defining?, List.getLast?_concat, Option.some.injEq] at hm
    rw [← hm, hbody]

theorem Leads.joins (h : Leads aliases t c) : c.Joins aliases t := by
  induction h with
  | refl => exact ⟨.inl ⟨rfl, rfl⟩, .nil, nofun⟩
  | tail _ hop ih => exact hop.joins ih

/-- The definition of a name that has been passed is where the chain has come to, or it is a name
that has been passed as well. -/
def Chain.Records (aliases : Aliases) (c : Chain) : Prop :=
  ∀ name ∈ c.names, aliases.lookup name = some c.type ∨ ∃ next ∈ c.names, HopsTo aliases name next

theorem Hop.records (hop : Hop aliases c d) (h : c.Records aliases) : d.Records aliases := by
  obtain ⟨hbody⟩ := hop
  intro m hm
  rcases List.mem_append.1 hm with hm | hm
  · rcases h m hm with htype | ⟨next, hnext, hops⟩
    · exact .inr ⟨_, List.mem_append_right _ List.mem_cons_self, htype⟩
    · exact .inr ⟨next, List.mem_append_left _ hnext, hops⟩
  · rw [List.mem_singleton.1 hm]
    exact .inl hbody

theorem Leads.records (h : Leads aliases t c) : c.Records aliases := by
  induction h with
  | refl => exact nofun
  | tail _ hop ih => exact hop.records ih

/-- A chain that recurs leads round and round, to names that it has passed. -/
theorem Chain.Records.recurs_of_path (h : c.Records aliases) (hc : c.Recurs)
    (path : ReflTransGen (Hop aliases) c d) : ∃ name ∈ c.names, d.type = .named name := by
  induction path with
  | refl => exact hc
  | tail _ hop ih =>
    obtain @⟨_, name, _, hbody⟩ := hop
    obtain ⟨_, hname, ⟨⟩⟩ := ih
    rcases h name hname with htype | ⟨next, hnext, hops⟩
    · rw [hbody, Option.some.injEq] at htype
      exact htype ▸ hc
    · rw [HopsTo, hbody, Option.some.injEq] at hops
      exact ⟨next, hnext, hops⟩

theorem Chain.Records.defined (h : c.Records aliases) {name : String} (hname : name ∈ c.names) :
    ∃ body, aliases.lookup name = some body := by
  rcases h name hname with htype | ⟨next, -, hops⟩
  · exact ⟨_, htype⟩
  · exact ⟨_, hops⟩

def Chain.Ended (aliases : Aliases) (c : Chain) : Prop := ∀ d, ¬ Hop aliases c d

theorem ended_of_plain (h : ∀ name, c.type ≠ .named name) : c.Ended aliases := by
  rintro _ ⟨-⟩
  exact h _ rfl

theorem ended_of_undefined {names : List String} {name : String}
    (h : aliases.lookup name = none) : Chain.Ended aliases ⟨names, .named name⟩ := by
  rintro _ ⟨hbody⟩
  rw [h] at hbody
  cases hbody

namespace Leads

theorem path_to_ended (hc : Leads aliases t c) (hd : Leads aliases t d) (h : d.Ended aliases) :
    ReflTransGen (Hop aliases) c d := by
  rcases hc.total_of_right_unique Hop.rightUnique hd with hcd | hdc
  · exact hcd
  · rcases hdc.cases_head with rfl | ⟨e, hop, -⟩
    · exact .refl
    · exact absurd hop (h e)

theorem not_recurs (hc : Leads aliases t c) (hd : Leads aliases t d) (h : d.Ended aliases) :
    ¬ c.Recurs := by
  intro hrecurs
  obtain ⟨m, hm, heq⟩ := hc.records.recurs_of_path hrecurs (hc.path_to_ended hd h)
  obtain ⟨body, hbody⟩ := hc.records.defined hm
  obtain ⟨names, type⟩ := d
  cases heq
  exact h _ (.pass hbody)

end Leads

namespace Stops

variable {r : Except HeaderError Chain} {names : List String} {name : String}

theorem ended_or_recurs (h : Stops aliases c r) : c.Ended aliases ∨ c.Recurs := by
  cases h with
  | plain plain => exact .inl (ended_of_plain plain)
  | undefined _ undefined => exact .inl (ended_of_undefined undefined)
  | recurs passed => exact .inr ⟨_, passed, rfl⟩

theorem eq_ok (h : Stops aliases c r) (plain : ∀ name, c.type ≠ .named name) : r = .ok c := by
  cases h with
  | plain => rfl
  | undefined | recurs => exact absurd rfl (plain _)

theorem eq_unknownAlias (h : Stops aliases ⟨names, .named name⟩ r) (fresh : name ∉ names) :
    r = .error (.unknownAlias name) := by
  cases h with
  | plain plain => exact absurd rfl (plain name)
  | undefined => rfl
  | recurs passed => exact absurd passed fresh

theorem eq_recursiveAlias (h : Stops aliases ⟨names, .named name⟩ r) (passed : name ∈ names) :
    r = .error (.recursiveAlias name (names ++ [name])) := by
  cases h with
  | plain plain => exact absurd rfl (plain name)
  | undefined fresh => exact absurd passed fresh
  | recurs => rfl

end Stops

theorem acc_proceeds (passed : List String) (t : SchemaType) :
    Acc (fun d c => Proceeds aliases c d) ⟨passed, t⟩ := by
  fun_induction followFrom aliases passed t with
  | case1 passed name hmem =>
    refine .intro _ fun d hd => ?_
    exact absurd hmem (not_recurs_iff.1 hd.1)
  | case2 passed name hmem body hbody ih =>
    refine .intro _ fun d hd => ?_
    rwa [Hop.rightUnique hd.2 (.pass hbody)]
  | case3 passed name hmem hnone =>
    exact .intro _ fun d hd => absurd hd.2 (ended_of_undefined hnone d)
  | case4 passed t hnamed => exact .intro _ fun d hd => absurd hd.2 (ended_of_plain hnamed d)

theorem followFrom_stops (passed : List String) (t : SchemaType) :
    ∃ d, ReflTransGen (Proceeds aliases) ⟨passed, t⟩ d ∧
      Stops aliases d (followFrom aliases passed t) := by
  fun_induction followFrom aliases passed t with
  | case1 passed name hmem => exact ⟨_, .refl, .recurs hmem⟩
  | case2 passed name hmem body hbody ih =>
    obtain ⟨d, run, stops⟩ := ih
    exact ⟨d, .head ⟨not_recurs_iff.2 hmem, .pass hbody⟩ run, stops⟩
  | case3 passed name hmem hnone => exact ⟨_, .refl, .undefined hmem hnone⟩
  | case4 passed t hnamed => exact ⟨_, .refl, .plain hnamed⟩

/-- Round after round following goes the way of the definitions and passes no name twice. -/
theorem leads_of_proceeds (h : ReflTransGen (Proceeds aliases) ⟨[], t⟩ c) :
    Leads aliases t c ∧ c.names.Nodup := by
  induction h with
  | refl => exact ⟨.refl, List.nodup_nil⟩
  | tail _ step ih => exact ⟨ih.1.tail step.2, step.2.nodup_iff.2 ⟨step.1, ih.2⟩⟩

theorem follow_stops {r : Except HeaderError Chain} (h : follow aliases t = r) :
    ∃ d, Leads aliases t d ∧ d.names.Nodup ∧ Stops aliases d r := by
  obtain ⟨d, run, stops⟩ := @followFrom_stops aliases [] t
  obtain ⟨leads, hnodup⟩ := leads_of_proceeds run
  exact ⟨d, leads, hnodup, h ▸ stops⟩

theorem stops_of_ended (h : Leads aliases t c) (hended : c.Ended aliases) :
    Stops aliases c (follow aliases t) := by
  obtain ⟨d, leads, -, stops⟩ := @follow_stops aliases t _ rfl
  rcases (leads.path_to_ended h hended).cases_head with rfl | ⟨e, hop, -⟩
  · exact stops
  · rcases stops.ended_or_recurs with hd | hd
    · exact absurd hop (hd e)
    · exact absurd hd (leads.not_recurs h hended)

/-- Where the way comes to a name for the second time, following stops. -/
theorem stops_of_recurs (h : Leads aliases t c) (hnodup : c.names.Nodup) (hc : c.Recurs) :
    Stops aliases c (follow aliases t) := by
  obtain ⟨d, leads, hd, stops⟩ := @follow_stops aliases t _ rfl
  -- One of the chains leads to the other; with a hop between them that one would repeat a name.
  rcases h.total_of_right_unique Hop.rightUnique leads with hcd | hdc
  · rwa [← Hop.eq_of_recurs hc hcd hd]
  · rcases stops.ended_or_recurs with hended | hrecurs
    · exact absurd hc (h.not_recurs leads hended)
    · rwa [Hop.eq_of_recurs hrecurs hdc hnodup]

theorem follow_eq_ok_iff : follow aliases t = .ok c ↔
    Leads aliases t c ∧ ∀ name, c.type ≠ .named name := by
  constructor
  · intro h
    obtain ⟨d, leads, -, stops⟩ := follow_stops h
    cases stops with
    | plain plain => exact ⟨leads, plain⟩
  · rintro ⟨h, plain⟩
    exact (stops_of_ended h (ended_of_plain plain)).eq_ok plain

theorem nodup_joins_of_follow (h : follow aliases t = .ok c) :
    c.names.Nodup ∧ c.Joins aliases t := by
  obtain ⟨d, leads, hnodup, stops⟩ := follow_stops h
  cases stops with
  | plain => exact ⟨hnodup, leads.joins⟩

theorem follow_eq_unknownAlias_iff {name : String} :
    follow aliases t = .error (.unknownAlias name) ↔
      ∃ names, Leads aliases t ⟨names, .named name⟩ ∧ aliases.lookup name = none := by
  constructor
  · intro h
    obtain ⟨d, leads, -, stops⟩ := follow_stops h
    cases stops with
    | undefined _ undefined => exact ⟨_, leads, undefined⟩
  · rintro ⟨names, h, hnone⟩
    refine (stops_of_ended h (ended_of_undefined hnone)).eq_unknownAlias fun hmem => ?_
    obtain ⟨body, hbody⟩ := h.records.defined hmem
    rw [hnone] at hbody
    cases hbody

theorem follow_eq_recursiveAlias_iff {name : String} {path : List String} :
    follow aliases t = .error (.recursiveAlias name path) ↔
      ∃ names, Leads aliases t ⟨names, .named name⟩ ∧ names.Nodup ∧ name ∈ names ∧
        path = names ++ [name] := by
  constructor
  · intro h
    obtain ⟨d, leads, hnodup, stops⟩ := follow_stops h
    cases stops with
    | recurs passed => exact ⟨_, leads, hnodup, passed, rfl⟩
  · rintro ⟨names, h, hnodup, hmem, rfl⟩
    exact (stops_of_recurs h hnodup ⟨name, hmem, rfl⟩).eq_recursiveAlias hmem

/-- Following fails for recursion just if the way leads past a name twice. -/
theorem exists_recursiveAlias_iff :
    (∃ name path, follow aliases t = .error (.recursiveAlias name path)) ↔
      ∃ c, Leads aliases t c ∧ ¬ c.names.Nodup := by
  constructor
  · rintro ⟨name, path, h⟩
    obtain ⟨names, leads, -, hmem, -⟩ := follow_eq_recursiveAlias_iff.1 h
    obtain ⟨body, hbody⟩ := leads.records.defined hmem
    have hop : Hop aliases ⟨names, .named name⟩ ⟨names ++ [name], body⟩ := .pass hbody
    exact ⟨_, leads.tail hop, fun hnodup => (hop.nodup_iff.1 hnodup).1 ⟨name, hmem, rfl⟩⟩
  · rintro ⟨c, h, hrepeated⟩
    obtain ⟨d, leads, hnodup, stops⟩ := @follow_stops aliases t _ rfl
    rcases stops.ended_or_recurs with hended | ⟨name, hmem, htype⟩
    · exact absurd (Hop.nodup_of_path (h.path_to_ended leads hended) hnodup) hrepeated
    · obtain ⟨names, type⟩ := d
      cases htype
      exact ⟨name, _, stops.eq_recursiveAlias hmem⟩

/-- Following ends. It gives a chain just if definitions lead to a type that is no name, and then
that type with all names on the way, each once. It fails at a name without a definition just if
they lead to it, and for recursion just if they lead past a name twice; then it tells the first
name that they come back to, and all names up to there. -/
theorem follow_exact (aliases : Aliases) (t : SchemaType) :
    Acc (fun d c => Proceeds aliases c d) ⟨[], t⟩ ∧
    (∃ c, ReflTransGen (Proceeds aliases) ⟨[], t⟩ c ∧ Stops aliases c (follow aliases t)) ∧
    (∀ c, follow aliases t = .ok c ↔ Leads aliases t c ∧ ∀ name, c.type ≠ .named name) ∧
    (∀ c, follow aliases t = .ok c → c.names.Nodup ∧ c.Joins aliases t) ∧
    (∀ name, follow aliases t = .error (.unknownAlias name) ↔
      ∃ names, Leads aliases t ⟨names, .named name⟩ ∧ aliases.lookup name = none) ∧
    ((∃ name path, follow aliases t = .error (.recursiveAlias name path)) ↔
      ∃ c, Leads aliases t c ∧ ¬ c.names.Nodup) ∧
    ∀ name path, follow aliases t = .error (.recursiveAlias name path) ↔
      ∃ names, Leads aliases t ⟨names, .named name⟩ ∧ names.Nodup ∧ name ∈ names ∧
        path = names ++ [name] :=
  ⟨acc_proceeds [] t, followFrom_stops [] t, fun _ => follow_eq_ok_iff,
    fun _ => nodup_joins_of_follow, fun _ => follow_eq_unknownAlias_iff,
    exists_recursiveAlias_iff, fun _ _ => follow_eq_recursiveAlias_iff⟩

/-- A way into a loop, one to a type that is no name, and one to nowhere. -/
def threeWays : Aliases :=
  [("A", .named "B"), ("B", .named "C"), ("C", .named "B"),
    ("Location", .named "Point"), ("Point", .object []), ("D", .named "Gone")]

theorem follow_exact_ways :
    (follow threeWays (.named "A") = .error (.recursiveAlias "B" ["A", "B", "C", "B"]) ∧
      ∃ c, Leads threeWays (.named "A") c ∧ ¬ c.names.Nodup) ∧
    (follow threeWays (.named "Location") = .ok ⟨["Location", "Point"], .object []⟩ ∧
      Chain.Joins threeWays (.named "Location") ⟨["Location", "Point"], .object []⟩) ∧
    follow threeWays (.named "D") = .error (.unknownAlias "Gone") := by
  have hA : Leads threeWays (.named "A") ⟨["A", "B", "C"], .named "B"⟩ :=
    .tail (.tail (.single (.pass rfl)) (.pass rfl)) (.pass rfl)
  have hlocation : Leads threeWays (.named "Location") ⟨["Location", "Point"], .object []⟩ :=
    .tail (.single (.pass rfl)) (.pass rfl)
  have hD : Leads threeWays (.named "D") ⟨["D"], .named "Gone"⟩ := .single (.pass rfl)
  obtain ⟨-, -, -, -, -, hrepeats, hrecursive⟩ := follow_exact threeWays (.named "A")
  obtain ⟨-, -, hok, hjoins, -⟩ := follow_exact threeWays (.named "Location")
  obtain ⟨-, -, -, -, hunknown, -⟩ := follow_exact threeWays (.named "D")
  have hloop := (hrecursive "B" _).2 ⟨_, hA, by decide, by decide, rfl⟩
  have hpoint := (hok _).2 ⟨hlocation, nofun⟩
  exact ⟨⟨hloop, hrepeats.1 ⟨_, _, hloop⟩⟩, ⟨hpoint, (hjoins _ hpoint).2⟩,
    (hunknown _).2 ⟨_, hD, rfl⟩⟩

end SchemaStructs
