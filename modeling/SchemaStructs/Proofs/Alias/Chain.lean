import SchemaStructs.Alias.Chain
import SchemaStructs.Proofs.Alias.Graph

set_option autoImplicit false

namespace SchemaStructs

open Relation

variable {aliases : Aliases}

/-- From the name `n` over `names` to a type that is no name, the definition of `owner`. -/
inductive Hops (aliases : Aliases) : String → List String → String → SchemaType → Prop
  | last {n : String} {t : SchemaType} (hbody : aliases.lookup n = some t)
      (h : ∀ m, t ≠ .named m) : Hops aliases n [n] n t
  | hop {n m owner : String} {names : List String} {t : SchemaType}
      (hbody : aliases.lookup n = some (.named m)) (rest : Hops aliases m names owner t) :
      Hops aliases n (n :: names) owner t

theorem Hops.getLast? {n owner : String} {names : List String} {t : SchemaType}
    (h : Hops aliases n names owner t) : names.getLast? = some owner := by
  induction h with
  | last => rfl
  | hop _ rest ih => rw [List.getLast?_cons, ih]; rfl

theorem Hops.head_mem {n owner : String} {names : List String} {t : SchemaType}
    (h : Hops aliases n names owner t) : n ∈ names := by
  cases h <;> exact List.mem_cons_self

theorem Hops.mono {g : Aliases}
    (hg : ∀ n body, g.lookup n = some body → aliases.lookup n = some body) {n owner : String}
    {names : List String} {t : SchemaType} (h : Hops g n names owner t) :
    Hops aliases n names owner t := by
  induction h with
  | last hbody hnamed => exact .last (hg _ _ hbody) hnamed
  | hop hbody _ ih => exact .hop (hg _ _ hbody) ih

theorem Hops.lookup_owner {n owner : String} {names : List String} {t : SchemaType}
    (h : Hops aliases n names owner t) : aliases.lookup owner = some t := by
  induction h with
  | last hbody => exact hbody
  | hop _ _ ih => exact ih

def HopsTo (aliases : Aliases) (a b : String) : Prop := aliases.lookup a = some (.named b)

theorem HopsTo.refers {a b : String} (h : HopsTo aliases a b) :
    Refers aliases Reference.outsideObjects a b :=
  ⟨_, h, _, List.mem_singleton.2 rfl, rfl, rfl⟩

section

variable {passed : List String} {name : String}

theorem followFrom_repeated (h : name ∈ passed) :
    followFrom aliases passed (.named name) = .error (.recursiveAlias name (passed ++ [name])) := by
  rw [followFrom, dif_pos h]

theorem followFrom_defined (h : name ∉ passed) {body : SchemaType}
    (hbody : aliases.lookup name = some body) :
    followFrom aliases passed (.named name) = followFrom aliases (passed ++ [name]) body := by
  rw [followFrom, dif_neg h]
  split
  · next body' hbody' => rw [Option.some.inj (hbody.symm.trans hbody')]
  · next hnone => rw [hbody] at hnone; cases hnone

theorem followFrom_undefined (h : name ∉ passed) (hnone : aliases.lookup name = none) :
    followFrom aliases passed (.named name) = .error (.unknownAlias name) := by
  rw [followFrom, dif_neg h]
  split
  · next body hbody => rw [hnone] at hbody; cases hbody
  · rfl

end

theorem followFrom_ok {passed : List String} {t : SchemaType} {chain : Chain}
    (h : followFrom aliases passed t = .ok chain) :
    (chain = ⟨passed, t⟩ ∧ ∀ n, t ≠ .named n) ∨ ∃ n names owner, t = .named n ∧
      chain.names = passed ++ names ∧ Hops aliases n names owner chain.type := by
  fun_induction followFrom aliases passed t with
  | case1 => simp at h
  | case2 passed n _ body hbody ih =>
    refine .inr ⟨n, ?_⟩
    rcases ih h with ⟨rfl, hnamed⟩ | ⟨m, names, owner, rfl, hnames, hops⟩
    · exact ⟨[n], n, rfl, rfl, .last hbody hnamed⟩
    · exact ⟨n :: names, owner, rfl, by simp [hnames], .hop hbody hops⟩
  | case3 => simp at h
  | case4 passed t hnamed =>
    simp only [Except.ok.injEq] at h
    exact .inl ⟨h.symm, hnamed⟩

theorem follow_ok {name : String} {chain : Chain} (h : follow aliases (.named name) = .ok chain) :
    ∃ owner, chain.defining? = some owner ∧ Hops aliases name chain.names owner chain.type := by
  rcases followFrom_ok h with ⟨-, hnamed⟩ | ⟨n, names, owner, hn, hnames, hops⟩
  · exact absurd rfl (hnamed name)
  · rw [SchemaType.named.injEq] at hn
    subst hn
    rw [List.nil_append] at hnames
    subst hnames
    exact ⟨owner, hops.getLast?, hops⟩

theorem followFrom_error {start : String} {passed : List String} {t : SchemaType} {e : HeaderError}
    (hstart : ∀ n, t = .named n → ReflTransGen (HopsTo aliases) start n)
    (hpassed : ∀ n, t = .named n → ∀ p ∈ passed, TransGen (HopsTo aliases) p n)
    (h : followFrom aliases passed t = .error e) :
    ∃ n, ReflTransGen (HopsTo aliases) start n ∧
      ((∃ path, e = .recursiveAlias n path) ∧ TransGen (HopsTo aliases) n n ∨
        e = .unknownAlias n ∧ aliases.lookup n = none) := by
  fun_induction followFrom aliases passed t with
  | case1 passed name hmem =>
    rw [Except.error.injEq] at h
    exact ⟨name, hstart name rfl, .inl ⟨⟨_, h.symm⟩, hpassed name rfl name hmem⟩⟩
  | case2 passed name _ body hbody ih =>
    have hstep : ∀ n, body = .named n → HopsTo aliases name n := by rintro n rfl; exact hbody
    refine ih (fun n hn => (hstart name rfl).tail (hstep n hn)) (fun n hn p hp => ?_) h
    rcases List.mem_append.1 hp with hp | hp
    · exact (hpassed name rfl p hp).tail (hstep n hn)
    · rw [List.mem_singleton.1 hp]; exact .single (hstep n hn)
  | case3 passed name _ hnone =>
    rw [Except.error.injEq] at h
    exact ⟨name, hstart name rfl, .inr ⟨h.symm, hnone⟩⟩
  | case4 => cases h

/-- Following fails only at a loop of names or at a name without a definition. -/
theorem follow_error {name : String} {e : HeaderError}
    (h : follow aliases (.named name) = .error e) :
    ∃ n, ReflTransGen (HopsTo aliases) name n ∧
      ((∃ path, e = .recursiveAlias n path) ∧ TransGen (HopsTo aliases) n n ∨
        e = .unknownAlias n ∧ aliases.lookup n = none) := by
  refine followFrom_error (fun n hn => ?_) (fun n _ p hp => by simp at hp) h
  rw [SchemaType.named.injEq] at hn
  rw [hn]

theorem Hops.path {n owner : String} {names : List String} {t : SchemaType}
    (h : Hops aliases n names owner t) : ReflTransGen (HopsTo aliases) n owner := by
  induction h with
  | last => exact .refl
  | hop hbody _ ih => exact ih.head hbody

theorem follow_of_lookup {n : String} {t : SchemaType} (hbody : aliases.lookup n = some t)
    (ht : ∀ m, t ≠ .named m) : follow aliases (.named n) = .ok ⟨[n], t⟩ := by
  have hhop : ∀ m, ¬ HopsTo aliases n m := by
    intro m hm
    rw [HopsTo, hbody, Option.some.injEq] at hm
    exact ht m hm
  cases h : follow aliases (.named n) with
  | error e =>
    obtain ⟨m, path, hm⟩ := follow_error h
    rcases path.cases_head with rfl | ⟨m', hstep, -⟩
    · rcases hm with ⟨-, hcycle⟩ | ⟨-, hnone⟩
      · obtain ⟨m', hstep, -⟩ := TransGen.head'_iff.1 hcycle
        exact absurd hstep (hhop m')
      · simp [hbody] at hnone
    · exact absurd hstep (hhop m')
  | ok chain =>
    obtain ⟨names, type⟩ := chain
    obtain ⟨owner, -, hops⟩ := follow_ok h
    cases hops with
    | last hbody' =>
      rw [hbody, Option.some.injEq] at hbody'
      rw [hbody']
    | hop hbody' => exact absurd hbody' (hhop _)

end SchemaStructs
