import Mathlib.Data.List.Nodup
import SchemaStructs.Proofs.Alias.Graph

set_option autoImplicit false

namespace SchemaStructs

open Relation

variable {aliases : Aliases}

section

variable {queue : List String} {found : Aliases} {name : String}

theorem reachFrom_found (h : name ∈ found.map (·.1)) :
    reachFrom aliases (name :: queue) found = reachFrom aliases queue found := by
  rw [reachFrom, dif_pos h]

theorem reachFrom_defined (h : name ∉ found.map (·.1)) {body : SchemaType}
    (hbody : aliases.lookup name = some body) :
    reachFrom aliases (name :: queue) found =
      reachFrom aliases (queue ++ body.targets) (found ++ [(name, body)]) := by
  rw [reachFrom, dif_neg h]
  split
  · next body' hbody' => rw [Option.some.inj (hbody.symm.trans hbody')]
  · next hnone => rw [hbody] at hnone; cases hnone

theorem reachFrom_undefined (h : name ∉ found.map (·.1)) (hnone : aliases.lookup name = none) :
    reachFrom aliases (name :: queue) found = .error (.unknownAlias name) := by
  rw [reachFrom, dif_neg h]
  split
  · next body hbody => rw [hnone] at hbody; cases hbody
  · rfl

end

/-- Nothing that a found alias mentions is lost: it is found as well or waits in the queue. -/
structure Pursued (aliases : Aliases) (queue : List String) (found : Aliases) : Prop where
  agrees : ∀ e ∈ found, aliases.lookup e.1 = some e.2
  pursued : ∀ e ∈ found, ∀ n ∈ e.2.targets, n ∈ found.map (·.1) ∨ n ∈ queue

theorem Pursued.skip {queue : List String} {found : Aliases} {name : String}
    (h : Pursued aliases (name :: queue) found) (hname : name ∈ found.map (·.1)) :
    Pursued aliases queue found := by
  refine ⟨h.agrees, fun e he n hn => ?_⟩
  rcases h.pursued e he n hn with hfound | hqueue
  · exact .inl hfound
  · rcases List.mem_cons.1 hqueue with rfl | hqueue
    · exact .inl hname
    · exact .inr hqueue

theorem Pursued.find {queue : List String} {found : Aliases} {name : String} {body : SchemaType}
    (h : Pursued aliases (name :: queue) found) (hbody : aliases.lookup name = some body) :
    Pursued aliases (queue ++ body.targets) (found ++ [(name, body)]) := by
  constructor
  · intro e he
    rcases List.mem_append.1 he with he | he
    · exact h.agrees e he
    · rw [List.mem_singleton.1 he]; exact hbody
  · intro e he n hn
    simp only [List.map_append, List.map_cons, List.map_nil, List.mem_append, List.mem_singleton]
    rcases List.mem_append.1 he with he | he
    · rcases h.pursued e he n hn with hfound | hqueue
      · exact .inl (.inl hfound)
      · rcases List.mem_cons.1 hqueue with rfl | hqueue
        · exact .inl (.inr rfl)
        · exact .inr (.inl hqueue)
    · rw [List.mem_singleton.1 he] at hn
      exact .inr (.inr hn)

theorem reachFrom_closed {queue : List String} {found g : Aliases}
    (h : reachFrom aliases queue found = .ok g) (hp : Pursued aliases queue found) :
    ClosedPart aliases g ∧ ∀ n, n ∈ found.map (·.1) ∨ n ∈ queue → n ∈ g.map (·.1) := by
  fun_induction reachFrom aliases queue found with
  | case1 found =>
    simp only [Except.ok.injEq] at h
    subst h
    exact ⟨⟨hp.agrees, fun e he n hn => by simpa using hp.pursued e he n hn⟩, by simp⟩
  | case2 found name queue hname ih =>
    obtain ⟨closed, found⟩ := ih h (hp.skip hname)
    refine ⟨closed, fun n hn => found n ?_⟩
    rcases hn with hn | hn
    · exact .inl hn
    · rcases List.mem_cons.1 hn with rfl | hn
      · exact .inl hname
      · exact .inr hn
  | case3 found name queue _ body hbody ih =>
    obtain ⟨closed, found⟩ := ih h (hp.find hbody)
    refine ⟨closed, fun n hn => found n ?_⟩
    simp only [List.map_append, List.map_cons, List.map_nil, List.mem_append, List.mem_singleton]
    rcases hn with hn | hn
    · exact .inl (.inl hn)
    · rcases List.mem_cons.1 hn with rfl | hn
      · exact .inl (.inr rfl)
      · exact .inr (.inl hn)
  | case4 => simp at h

/-- What a search pursues leads back to the place where it set out. -/
theorem refers_any_of_mem_targets {name n : String} {body : SchemaType}
    (hbody : aliases.lookup name = some body) (hn : n ∈ body.targets) :
    Refers aliases Reference.any name n := by
  obtain ⟨r, hr, rfl⟩ := SchemaType.mem_targets.1 hn
  exact ⟨body, hbody, r, hr, rfl, rfl⟩

theorem reaches_of_mem_targets {t body : SchemaType} {queue : List String} {name : String}
    (hbody : aliases.lookup name = some body)
    (hq : ∀ n ∈ name :: queue, Reaches aliases Reference.any t n) :
    ∀ n ∈ queue ++ body.targets, Reaches aliases Reference.any t n := by
  intro n hn
  rcases List.mem_append.1 hn with hn | hn
  · exact hq n (List.mem_cons_of_mem _ hn)
  · exact (hq name List.mem_cons_self).tail (refers_any_of_mem_targets hbody hn)

theorem reaches_of_reachFrom {t : SchemaType} {queue : List String} {found g : Aliases}
    (h : reachFrom aliases queue found = .ok g)
    (hq : ∀ n ∈ queue, Reaches aliases Reference.any t n)
    (hf : ∀ n ∈ found.map (·.1), Reaches aliases Reference.any t n) :
    ∀ n ∈ g.map (·.1), Reaches aliases Reference.any t n := by
  fun_induction reachFrom aliases queue found with
  | case1 found =>
    simp only [Except.ok.injEq] at h
    exact h ▸ hf
  | case2 found name queue _ ih => exact ih h (fun n hn => hq n (List.mem_cons_of_mem _ hn)) hf
  | case3 found name queue _ body hbody ih =>
    refine ih h (reaches_of_mem_targets hbody hq) fun n hn => ?_
    rw [List.map_append, List.mem_append] at hn
    rcases hn with hn | hn
    · exact hf n hn
    · rw [List.mem_singleton.1 hn]; exact hq name List.mem_cons_self
  | case4 => simp at h

theorem reachFrom_error {t : SchemaType} {queue : List String} {found : Aliases}
    {e : HeaderError} (h : reachFrom aliases queue found = .error e)
    (hq : ∀ n ∈ queue, Reaches aliases Reference.any t n) :
    ∃ n, e = .unknownAlias n ∧ Reaches aliases Reference.any t n ∧ aliases.lookup n = none := by
  fun_induction reachFrom aliases queue found with
  | case1 => simp at h
  | case2 found name queue _ ih => exact ih h fun n hn => hq n (List.mem_cons_of_mem _ hn)
  | case3 found name queue _ body hbody ih => exact ih h (reaches_of_mem_targets hbody hq)
  | case4 found name queue _ hnone =>
    simp only [Except.error.injEq] at h
    exact ⟨name, h.symm, hq name List.mem_cons_self, hnone⟩

theorem reachFrom_nodup {queue : List String} {found g : Aliases}
    (h : reachFrom aliases queue found = .ok g) (hfound : (found.map (·.1)).Nodup) :
    (g.map (·.1)).Nodup := by
  fun_induction reachFrom aliases queue found with
  | case1 found =>
    simp only [Except.ok.injEq] at h
    exact h ▸ hfound
  | case2 found name queue _ ih => exact ih h hfound
  | case3 found name queue hname body _ ih =>
    refine ih h ?_
    rw [List.map_append, List.map_singleton, ← List.concat_eq_append, List.nodup_concat]
    exact ⟨hname, hfound⟩
  | case4 => simp at h

namespace SchemaType

variable {t : SchemaType}

theorem reaches_target {keep : Reference → Bool} {n : String} (hn : n ∈ t.targets) :
    Reaches aliases keep t n := ⟨n, hn, .refl⟩

theorem reach_closed {g : Aliases} (h : t.reach aliases = .ok g) : ClosedPart aliases g :=
  (reachFrom_closed h ⟨by simp, by simp⟩).1

theorem mem_reach {g : Aliases} (h : t.reach aliases = .ok g) {n : String} :
    n ∈ g.map (·.1) ↔ Reaches aliases Reference.any t n := by
  obtain ⟨closed, found⟩ := reachFrom_closed h ⟨by simp, by simp⟩
  constructor
  · exact reaches_of_reachFrom h (fun n hn => reaches_target hn) (by simp) n
  · rintro ⟨root, hroot, path⟩
    have hmem := found root (.inr hroot)
    exact closed.mem_of_path hmem ((closed.path_iff hmem).2 path)

theorem reach_eq_ok_iff :
    (∃ g, t.reach aliases = .ok g) ↔
      ∀ n, Reaches aliases Reference.any t n → ∃ body, aliases.lookup n = some body := by
  constructor
  · rintro ⟨g, hg⟩ n hn
    have hmem := (mem_reach hg).2 hn
    obtain ⟨body, hbody⟩ := exists_lookup_of_mem hmem
    exact ⟨body, (reach_closed hg).lookup_mono hbody⟩
  · intro h
    cases hg : t.reach aliases with
    | ok g => exact ⟨g, rfl⟩
    | error e =>
      obtain ⟨n, -, hn, hnone⟩ := reachFrom_error hg fun n hn => reaches_target hn
      obtain ⟨body, hbody⟩ := h n hn
      simp [hnone] at hbody

end SchemaType

end SchemaStructs
