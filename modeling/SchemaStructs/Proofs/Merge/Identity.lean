import SchemaStructs.Proofs.Merge.Append

/-!
Where the merge has nothing to do. If every struct refers to structs before it only, two that
unfold alike have equal fields, so where no two have equal fields each is in a class of its own.
-/

set_option autoImplicit false

namespace SchemaStructs

open Classes

def Backward (structs : List Struct) : Prop :=
  ∀ before t after, structs = before ++ t :: after → ∀ k name, refAt t.fields k = some name →
    name ∈ before.map (·.name)

section

variable {structs : List Struct}

theorem Backward.linked (h : Backward structs) (hnames : (structs.map (·.name)).Nodup) :
    Linked structs where
  distinct := hnames
  closed := by
    intro s hs k name hk
    obtain ⟨before, after, rfl⟩ := List.append_of_mem hs
    rw [List.map_append]
    exact List.mem_append_left _ (h before s after rfl k name hk)

theorem exists_split_of_name_mem {before after : List Struct} {u : Struct}
    (hnames : (structs.map (·.name)).Nodup) (hsplit : structs = before ++ after)
    (hu : u ∈ structs) (hname : u.name ∈ before.map (·.name)) :
    ∃ front rest, structs = front ++ u :: rest ∧ front.length < before.length := by
  obtain ⟨v, hv, hvname⟩ := List.mem_map.1 hname
  have hvu : v = u :=
    List.inj_on_of_nodup_map hnames (hsplit ▸ List.mem_append_left _ hv) hu hvname
  obtain ⟨front, rest, rfl⟩ := List.append_of_mem (hvu ▸ hv)
  exact ⟨front, rest ++ after, by rw [hsplit, List.append_assoc, List.cons_append], by simp⟩

variable (hback : Backward structs) (hnames : (structs.map (·.name)).Nodup)
  (hfields : (structs.map (·.fields)).Nodup)

include hback hnames hfields

theorem eq_of_alike {s t : Struct} (hs : s ∈ structs) (ht : t ∈ structs)
    (halike : ∀ path, unfolding structs path s.fields = unfolding structs path t.fields) :
    s = t := by
  have hlinked := hback.linked hnames
  obtain ⟨before, after, hsplit⟩ := List.append_of_mem hs
  induction hlength : before.length using Nat.strongRecOn generalizing s t before after with
  | ind length ih =>
    obtain ⟨hshapes, hrefs⟩ := hlinked.refs_alike hs ht halike
    refine List.inj_on_of_nodup_map hfields hs ht (fields_eq_iff.2 ⟨hshapes, fun k => ?_⟩)
    rcases hrefs k with ⟨hsk, htk⟩ | ⟨u, hu, v, hv, hsk, htk, hbelow⟩
    · rw [hsk, htk]
    · -- What `s` refers to stands before `s`.
      have hname := hback before s after hsplit k u.name hsk
      obtain ⟨front, rest, hfront, hless⟩ := exists_split_of_name_mem hnames hsplit hu hname
      have huv : u = v := ih _ (hlength ▸ hless) hu hv hbelow front rest hfront rfl
      rw [hsk, htk, huv]

theorem stable_classOf_eq_self {s : Struct} (hs : s ∈ structs) :
    (stable structs).classOf s.name = s.name := by
  have hlinked := hback.linked hnames
  obtain ⟨u, hu, hname, hkept⟩ := exists_kept hlinked hs
  have halike := (stable_classOf_eq_iff_unfolding hlinked hu hs).1 (hkept.trans hname)
  rw [← hname, eq_of_alike hback hnames hfields hu hs halike]

theorem mergeEquivalent_eq_self : mergeEquivalent structs = structs :=
  mergeEquivalent_of_classOf_eq_self (hback.linked hnames) fun _ hs =>
    stable_classOf_eq_self hback hnames hfields hs

end

end SchemaStructs
