import SchemaStructs.Proofs.Alias.Chain
import SchemaStructs.Proofs.Alias.Representable

/-!
Maps of aliases that agree on what a type reaches. All that is done with the aliases of a type
looks up names that it reaches and no others, so under such maps it comes out the same, errors
included.
-/

set_option autoImplicit false

namespace SchemaStructs

open Relation

/-- Every alias that the type reaches has the same definition in both maps, or none in either. -/
def Agree (aliases aliases' : Aliases) (t : SchemaType) : Prop :=
  ∀ n, Reaches aliases Reference.any t n → aliases.lookup n = aliases'.lookup n

variable {aliases aliases' : Aliases} {t : SchemaType}

namespace Agree

theorem lookup_target (h : Agree aliases aliases' t) {n : String} (hn : n ∈ t.targets) :
    aliases.lookup n = aliases'.lookup n := h n (SchemaType.reaches_target hn)

theorem body (h : Agree aliases aliases' t) {n : String}
    (hn : Reaches aliases Reference.any t n) {body : SchemaType}
    (hbody : aliases.lookup n = some body) : Agree aliases aliases' body :=
  fun m hm => h m (hn.trans hbody hm)

theorem target (h : Agree aliases aliases' t) {n : String} (hn : n ∈ t.targets) :
    Agree aliases aliases' (.named n) := by
  rintro m ⟨root, hroot, path⟩
  rw [List.mem_singleton.1 hroot] at path
  exact h m ⟨n, hn, path⟩

theorem hops {n owner : String} {names : List String} {body : SchemaType}
    (h : Agree aliases aliases' (.named n)) (hops : Hops aliases n names owner body) :
    Agree aliases aliases' body := by
  induction hops with
  | last hbody => exact h.body (SchemaType.reaches_target (List.mem_singleton.2 rfl)) hbody
  | hop hbody _ ih => exact ih (h.body (SchemaType.reaches_target (List.mem_singleton.2 rfl)) hbody)

/-- The aliases that a type reaches, taken by themselves, agree with all aliases. -/
theorem of_reach {g : Aliases} (h : Agree aliases aliases' t) (hg : t.reach aliases = .ok g) :
    Agree g aliases' t := by
  have part := SchemaType.reach_closed hg
  rintro n ⟨root, hroot, path⟩
  have hmem := (SchemaType.mem_reach hg).2 (SchemaType.reaches_target hroot)
  have hn := part.mem_of_path hmem path
  rw [part.lookup_eq hn]
  exact h n ((SchemaType.mem_reach hg).1 hn)

end Agree

theorem reachFrom_congr {queue : List String} {found : Aliases} (h : Agree aliases aliases' t)
    (hqueue : ∀ n ∈ queue, Reaches aliases Reference.any t n) :
    reachFrom aliases queue found = reachFrom aliases' queue found := by
  fun_induction reachFrom aliases queue found with
  | case1 found => rw [reachFrom]
  | case2 found name queue hname ih =>
    rw [reachFrom_found hname]
    exact ih fun n hn => hqueue n (List.mem_cons_of_mem name hn)
  | case3 found name queue hname body hbody ih =>
    rw [reachFrom_defined hname ((h name (hqueue name List.mem_cons_self)).symm.trans hbody)]
    exact ih (reaches_of_mem_targets hbody hqueue)
  | case4 found name queue hname hnone =>
    rw [reachFrom_undefined hname ((h name (hqueue name List.mem_cons_self)).symm.trans hnone)]

/-- The check of a type gives the same aliases, or fails in the same way. -/
theorem represent_congr (h : Agree aliases aliases' t) :
    t.represent aliases = t.represent aliases' := by
  have hreach : t.reach aliases = t.reach aliases' :=
    reachFrom_congr h fun n hn => SchemaType.reaches_target hn
  rw [SchemaType.represent, SchemaType.represent, hreach]

theorem followFrom_congr {passed : List String} (h : Agree aliases aliases' t) :
    followFrom aliases passed t = followFrom aliases' passed t := by
  fun_induction followFrom aliases passed t with
  | case1 passed name hmem => rw [followFrom_repeated hmem]
  | case2 passed name hmem body hbody ih =>
    have hname : Reaches aliases Reference.any (.named name) name :=
      SchemaType.reaches_target (List.mem_singleton.2 rfl)
    rw [followFrom_defined hmem ((h name hname).symm.trans hbody)]
    exact ih (h.body hname hbody)
  | case3 passed name hmem hnone =>
    rw [followFrom_undefined hmem
      ((h.lookup_target (List.mem_singleton.2 rfl)).symm.trans hnone)]
  | case4 passed t hnamed => rw [followFrom]; exact hnamed

theorem follow_congr (h : Agree aliases aliases' t) : follow aliases t = follow aliases' t :=
  followFrom_congr h

end SchemaStructs
