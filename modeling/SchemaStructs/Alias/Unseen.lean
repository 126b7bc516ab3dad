/-!
What is still to come in a search over named things: the weight of the bindings whose names have
not been seen. It falls whenever a new name is seen, so searches end.
-/

set_option autoImplicit false

namespace SchemaStructs

variable {α : Type}

def unseen (weight : α → Nat) (seen : List String) : List (String × α) → Nat
  | [] => 0
  | e :: es => (if e.1 ∈ seen then 0 else weight e.2) + unseen weight seen es

theorem unseen_le (weight : α → Nat) (seen seen' : List String) (h : ∀ n ∈ seen, n ∈ seen')
    (es : List (String × α)) : unseen weight seen' es ≤ unseen weight seen es := by
  induction es with
  | nil => exact Nat.le_refl _
  | cons e es ih =>
    simp only [unseen]
    by_cases h₁ : e.1 ∈ seen
    · simp [h₁, h e.1 h₁, ih]
    · by_cases h₂ : e.1 ∈ seen' <;> simp only [h₁, h₂, if_true, if_false] <;> omega

theorem unseen_add_le (weight : α → Nat) (seen seen' : List String) {name : String} {a : α}
    {es : List (String × α)} (hnew : name ∉ seen) (hname : name ∈ seen')
    (h : ∀ n ∈ seen, n ∈ seen') (hget : es.lookup name = some a) :
    unseen weight seen' es + weight a ≤ unseen weight seen es := by
  induction es with
  | nil => simp at hget
  | cons e es ih =>
    obtain ⟨n, b⟩ := e
    simp only [unseen]
    by_cases hn : name = n
    · subst hn
      simp only [List.lookup_cons_self, Option.some.injEq] at hget
      subst hget
      simp only [hname, hnew, if_true, if_false]
      have := unseen_le weight seen seen' h es
      omega
    · rw [List.lookup_cons, beq_false_of_ne hn] at hget
      have := ih hget
      by_cases h₁ : n ∈ seen
      · simp only [h₁, h n h₁, if_true]; omega
      · by_cases h₂ : n ∈ seen' <;> simp only [h₁, h₂, if_true, if_false] <;> omega

end SchemaStructs
