import SchemaStructs.Proofs.Header.Legal

/-!
Members that have the name of a struct. An identifier is compared with the structs before the
underscore or the number is put behind it, and not after, so either can make it the name of another
struct; there is no other way.
-/

set_option autoImplicit false

namespace SchemaStructs

namespace Ident

variable {structs keys : List String} {ident : String}

theorem assign_append (structs used before after : List String) :
    assign structs used (before ++ after) = assign structs used before ++
      assign structs ((assign structs used before).reverse ++ used) after := by
  induction before generalizing used with
  | nil => rfl
  | cons key before ih =>
    rw [List.cons_append, assign, ih, assign]
    simp only [List.cons_append, List.reverse_cons, List.append_assoc, List.nil_append]

/-- Each identifier was found for one of the keys, beside those of the keys before. -/
theorem exists_split_of_mem_assign {used : List String} (h : ident ∈ assign structs used keys) :
    ∃ before key after, keys = before ++ key :: after ∧
      ident = unused ((assign structs used before).reverse ++ used) (wish structs key) := by
  induction keys generalizing used with
  | nil => cases h
  | cons key keys ih =>
    rw [assign] at h
    rcases List.mem_cons.1 h with rfl | h
    · exact ⟨[], key, keys, rfl, rfl⟩
    · obtain ⟨before, key', after, rfl, hident⟩ := ih h
      refine ⟨key :: before, key', after, rfl, ?_⟩
      rw [hident, assign]
      simp only [List.reverse_cons, List.append_assoc, List.cons_append, List.nil_append]

theorem unused_mem_assign (structs before after : List String) (key : String) :
    unused (assign structs [] before).reverse (wish structs key) ∈
      assign structs [] (before ++ key :: after) := by
  rw [assign_append, List.append_nil, assign]
  exact List.mem_append_right _ List.mem_cons_self

/-- The identifiers are those forms of what a key asks for of which all earlier forms are used by
the keys before. -/
theorem mem_assign_iff : ident ∈ assign structs [] keys ↔
    ∃ before key after n, keys = before ++ key :: after ∧
      ident = Naming.form (wish structs key) n ∧
      ∀ m < n, Naming.form (wish structs key) m ∈ assign structs [] before := by
  constructor
  · intro h
    obtain ⟨before, key, after, hsplit, hident⟩ := exists_split_of_mem_assign h
    rw [List.append_nil] at hident
    obtain ⟨n, -, hn, -, hbefore⟩ :=
      exists_unused (assign structs [] before).reverse (wish structs key)
    exact ⟨before, key, after, n, hsplit, hident.trans hn,
      fun m hm => List.mem_reverse.1 (hbefore m hm)⟩
  · rintro ⟨before, key, after, n, rfl, rfl, hbefore⟩
    -- A form that is used before the key is in the list already, else the key gets it.
    by_cases hused : Naming.form (wish structs key) n ∈ assign structs [] before
    · rw [assign_append]
      exact List.mem_append_left _ hused
    · have hsearch : Searches (assign structs [] before).reverse (wish structs key) 0
          (Naming.form (wish structs key) n) := by
        refine searches_iff.2 ⟨n, by rw [Nat.zero_add], by rwa [List.mem_reverse], fun m hm => ?_⟩
        rw [Nat.zero_add, List.mem_reverse]
        exact hbefore m hm
      rw [searches_iff_eq_unused.1 hsearch]
      exact unused_mem_assign structs before after key

/-- How a member comes to the name of a struct: an underscore behind an identifier that may not
be used gives it, or a number behind one that is used already. -/
inductive Shadows (structs keys : List String) : Prop
  | underscore {key : String} (mem : key ∈ keys)
      (avoided : ofKey key ∈ libraryNames ∨ ofKey key ∈ structs)
      (taken : ofKey key ++ "_" ∈ structs)
  | number {before after : List String} {key : String} {n : Nat}
      (split : keys = before ++ key :: after)
      (isUsed : ∀ m ≤ n, Naming.form (wish structs key) m ∈ assign structs [] before)
      (taken : Naming.form (wish structs key) (n + 1) ∈ structs)

theorem shadows_iff : Shadows structs keys ↔ ∃ ident ∈ assign structs [] keys, ident ∈ structs := by
  constructor
  · rintro (⟨hmem, havoided, htaken⟩ | ⟨hsplit, hused, htaken⟩)
    · next key =>
      obtain ⟨before, after, hsplit⟩ := List.append_of_mem hmem
      have hwish : wish structs key = ofKey key ++ "_" := by
        rcases wish_cases structs key with ⟨⟨hlibrary, hstructs⟩, -⟩ | ⟨-, h⟩
        · exact absurd havoided (not_or.2 ⟨hlibrary, hstructs⟩)
        · exact h
      exact ⟨_, mem_assign_iff.2 ⟨before, key, after, 0, hsplit, hwish.symm, by simp⟩, htaken⟩
    · exact ⟨_, mem_assign_iff.2 ⟨_, _, _, _, hsplit, rfl,
        fun m hm => hused m (Nat.le_of_lt_succ hm)⟩, htaken⟩
  · rintro ⟨ident, hident, htaken⟩
    obtain ⟨before, key, after, n, hsplit, rfl, hbefore⟩ := mem_assign_iff.1 hident
    cases n with
    | succ n => exact .number hsplit (fun m hm => hbefore m (Nat.lt_succ_of_le hm)) htaken
    | zero =>
      rcases wish_cases structs key with ⟨⟨-, hstructs⟩, h⟩ | ⟨havoided, h⟩
      · exact absurd (h ▸ htaken) hstructs
      · exact .underscore (hsplit ▸ List.mem_append_right _ List.mem_cons_self) havoided
          (h ▸ htaken)

theorem not_shadows_of_endsInLetter (h : ∀ name ∈ structs, endsInLetter name = true) :
    ¬ Shadows structs keys := by
  rintro (⟨-, -, htaken⟩ | ⟨-, -, htaken⟩)
  · simpa using h _ htaken
  · simpa [Naming.form] using h _ htaken

end Ident

variable {moduleName : String} {aliases : Aliases} {methods : List Method} {structs : List Struct}

/-- Of a collected struct no member has the name of a struct just when neither an underscore nor a
number leads to one. -/
theorem members_apart_iff (h : collect moduleName aliases methods = .ok structs) {s : Struct}
    (hs : s ∈ structs) :
    (∃ cpp, CppStruct.ofStruct structs s = .ok cpp ∧
      ∀ m ∈ cpp.members, m.ident ∉ structs.map (·.name)) ↔
      ¬ Ident.Shadows (structs.map (·.name)) (s.fields.map (·.name)) := by
  have hmembers : (∀ m ∈ (s.toCpp structs).members, m.ident ∉ structs.map (·.name)) ↔
      ∀ ident ∈ s.idents structs, ident ∉ structs.map (·.name) := by
    rw [← s.idents_toCpp structs, List.forall_mem_map]
  rw [ofStruct_eq (linked_of_collect h) hs, Ident.shadows_iff]
  push Not
  constructor
  · rintro ⟨cpp, hcpp, hapart⟩
    cases hcpp
    exact hmembers.1 hapart
  · intro hapart
    exact ⟨_, rfl, hmembers.2 hapart⟩

section

def shapeAliases : Aliases :=
  [("Point", .object [⟨"x", .scalar .number, false⟩]),
    ("Shape", .object [⟨"M_Point", .named "Point", false⟩, ⟨"toDynamic", .scalar .bool, false⟩])]

def shapeStruct : Struct :=
  ⟨"M_Shape", [⟨"M_Point", .struct "M_Point", false⟩, ⟨"toDynamic", .bool, false⟩], .named "Shape"⟩

def shapeStructs : List Struct :=
  [⟨"M_Point", [⟨"x", .number, false⟩], .named "Point"⟩, shapeStruct]

theorem members_apart_iff_shape :
    collect "M" shapeAliases (returning "Shape") = .ok shapeStructs ∧ shapeStruct ∈ shapeStructs ∧
      ∃ cpp, CppStruct.ofStruct shapeStructs shapeStruct = .ok cpp ∧
        ∀ m ∈ cpp.members, m.ident ∉ shapeStructs.map (·.name) := by
  have h : collect "M" shapeAliases (returning "Shape") = .ok shapeStructs := by decide +kernel
  have hs : shapeStruct ∈ shapeStructs := by decide
  have hletters : ∀ name ∈ shapeStructs.map (·.name), endsInLetter name = true := by decide
  exact ⟨h, hs, (members_apart_iff h hs).2 (Ident.not_shadows_of_endsInLetter hletters)⟩

def ownNameAliases : Aliases :=
  [("A", .object [⟨"M_A", .scalar .number, false⟩, ⟨"b", .named "A_", false⟩]),
    ("A_", .object [⟨"x", .scalar .bool, false⟩])]

def ownNameStruct : Struct :=
  ⟨"M_A", [⟨"M_A", .number, false⟩, ⟨"b", .struct "M_A_", false⟩], .named "A"⟩

def ownNameStructs : List Struct :=
  [⟨"M_A_", [⟨"x", .bool, false⟩], .named "A_"⟩, ownNameStruct]

/-- A field with the name of its own struct gets an underscore, and with it the name of another
struct. -/
theorem member_shadows_struct :
    collect "M" ownNameAliases (returning "A") = .ok ownNameStructs ∧
      ownNameStruct ∈ ownNameStructs ∧
      ∃ cpp, CppStruct.ofStruct ownNameStructs ownNameStruct = .ok cpp ∧
        ∃ m ∈ cpp.members, m.ident = "M_A_" ∧ m.ident ∈ ownNameStructs.map (·.name) := by
  have h : collect "M" ownNameAliases (returning "A") = .ok ownNameStructs := by decide +kernel
  have hs : ownNameStruct ∈ ownNameStructs := by decide
  exact ⟨h, hs, _, ofStruct_eq (linked_of_collect h) hs, by decide +kernel⟩

end

end SchemaStructs
