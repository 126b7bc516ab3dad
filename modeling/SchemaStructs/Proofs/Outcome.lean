import SchemaStructs.Error

set_option autoImplicit false

namespace SchemaStructs

variable {ε α β : Type}

@[simp] theorem ok_bind (a : α) (f : α → Except ε β) : (Except.ok a >>= f) = f a := rfl

@[simp] theorem error_bind (e : ε) (f : α → Except ε β) : (Except.error e >>= f) = .error e := rfl

@[simp] theorem pure_eq (a : α) : (pure a : Except ε α) = .ok a := rfl

@[simp] theorem bind_eq_ok {x : Except ε α} {f : α → Except ε β} {b : β} :
    (x >>= f) = .ok b ↔ ∃ a, x = .ok a ∧ f a = .ok b := by
  cases x <;> simp

@[simp] theorem bind_eq_error {x : Except ε α} {f : α → Except ε β} {e : ε} :
    (x >>= f) = .error e ↔ x = .error e ∨ ∃ a, x = .ok a ∧ f a = .error e := by
  cases x <;> simp

@[simp] theorem map_eq_ok {f : α → β} {x : Except ε α} {b : β} :
    f <$> x = .ok b ↔ ∃ a, x = .ok a ∧ f a = b := by
  cases x <;> simp [Functor.map, Except.map]

@[simp] theorem map_eq_error {f : α → β} {x : Except ε α} {e : ε} :
    f <$> x = .error e ↔ x = .error e := by
  cases x <;> simp [Functor.map, Except.map]

theorem exists_of_isOk {x : Except ε α} (h : x.isOk = true) : ∃ a, x = .ok a := by
  cases x with
  | error e => cases h
  | ok a => exact ⟨a, rfl⟩

@[simp] theorem mapError_ok {ε' : Type} (f : ε → ε') (a : α) :
    (Except.ok a).mapError f = .ok a := rfl

@[simp] theorem mapError_error {ε' : Type} (f : ε → ε') (e : ε) :
    (Except.error e : Except ε α).mapError f = .error (f e) := rfl

@[simp] theorem mapError_eq_ok {ε' : Type} {f : ε → ε'} {x : Except ε α} {a : α} :
    x.mapError f = .ok a ↔ x = .ok a := by
  cases x <;> simp

@[simp] theorem mapError_eq_error {ε' : Type} {f : ε → ε'} {x : Except ε α} {e : ε'} :
    x.mapError f = .error e ↔ ∃ e', x = .error e' ∧ f e' = e := by
  cases x <;> simp

@[simp] theorem Halt.attempt_eq_ok {δ : Type} {x : Except (Halt ε) α} {r : Except ε α} :
    (attempt x : Except (Halt δ) (Except ε α)) = .ok r ↔ x = r.mapError Halt.failed := by
  match x, r with
  | .ok a, .ok b | .ok a, .error e => simp [attempt]
  | .error (.failed e), .ok b | .error (.failed e), .error e' => simp [attempt]
  | .error .endless, .ok b | .error .endless, .error e => simp [attempt]

@[simp] theorem Halt.attempt_eq_error {δ : Type} {x : Except (Halt ε) α} {h : Halt δ} :
    attempt x = .error h ↔ x = .error .endless ∧ h = .endless := by
  match x with
  | .ok a | .error (.failed e) => simp [attempt]
  | .error .endless => simp [attempt, eq_comm]

theorem eq_error_of_map {f : α → β} {x : Except ε α} {e : ε} (h : x.map f = .error e) :
    x = .error e := by
  cases x with
  | error e' =>
    cases h
    rfl
  | ok a => cases h

theorem mapM_eq_ok_iff {check : α → Except ε β} {xs : List α} :
    (∃ ys, xs.mapM check = .ok ys) ↔ ∀ x ∈ xs, ∃ y, check x = .ok y := by
  induction xs with
  | nil => exact ⟨fun _ x hx => by simp at hx, fun _ => ⟨[], rfl⟩⟩
  | cons a xs ih =>
    simp only [List.mapM_cons, List.forall_mem_cons, ← ih, bind_eq_ok]
    constructor
    · rintro ⟨ys, b, ha, bs, hxs, -⟩
      exact ⟨⟨b, ha⟩, bs, hxs⟩
    · rintro ⟨⟨b, ha⟩, bs, hxs⟩
      exact ⟨b :: bs, b, ha, bs, hxs, rfl⟩

theorem mapM_eq_ok_map {check : α → Except ε β} {f : α → β} {xs : List α}
    (h : ∀ x ∈ xs, check x = .ok (f x)) : xs.mapM check = .ok (xs.map f) := by
  induction xs with
  | nil => rfl
  | cons a xs ih =>
    rw [List.forall_mem_cons] at h
    simp [List.mapM_cons, h.1, ih h.2, bind, Except.bind, pure, Except.pure]

theorem mapM_congr {f g : α → Except ε β} {xs : List α} (h : ∀ x ∈ xs, f x = g x) :
    xs.mapM f = xs.mapM g := by
  induction xs with
  | nil => rfl
  | cons a xs ih =>
    rw [List.forall_mem_cons] at h
    rw [List.mapM_cons, List.mapM_cons, h.1, ih h.2]

theorem exists_error_of_mapM {check : α → Except ε β} {xs : List α} {e : ε}
    (h : xs.mapM check = .error e) : ∃ x ∈ xs, check x = .error e := by
  induction xs with
  | nil => cases h
  | cons a xs ih =>
    rw [List.mapM_cons] at h
    cases ha : check a with
    | error e' =>
      rw [ha] at h
      cases h
      exact ⟨a, List.mem_cons_self, ha⟩
    | ok b =>
      cases hxs : xs.mapM check with
      | error e' =>
        simp only [ha, hxs, bind, Except.bind, Except.error.injEq] at h
        obtain ⟨x, hx, hcheck⟩ := ih (h ▸ hxs)
        exact ⟨x, List.mem_cons_of_mem a hx, hcheck⟩
      | ok bs =>
        rw [ha, hxs] at h
        cases h

theorem mapM_eq_error {check : α → Except ε β} {xs : List α} {x : α} {e : ε} (hx : x ∈ xs)
    (h : check x = .error e) : ∃ e', xs.mapM check = .error e' := by
  cases hxs : xs.mapM check with
  | error e' => exact ⟨e', rfl⟩
  | ok ys =>
    obtain ⟨y, hy⟩ := mapM_eq_ok_iff.1 ⟨ys, hxs⟩ x hx
    rw [h] at hy
    cases hy

theorem forM_eq_ok {check : α → Except ε Unit} {xs : List α} (h : xs.forM check = .ok ()) :
    ∀ x ∈ xs, check x = .ok () := by
  induction xs with
  | nil => simp
  | cons a xs ih =>
    obtain ⟨⟨⟩, ha, hxs⟩ := bind_eq_ok.1 h
    exact List.forall_mem_cons.2 ⟨ha, ih hxs⟩

theorem forM_eq_ok_iff {check : α → Except ε Unit} {xs : List α} :
    xs.forM check = .ok () ↔ ∀ x ∈ xs, check x = .ok () := by
  refine ⟨forM_eq_ok, fun h => ?_⟩
  induction xs with
  | nil => rfl
  | cons a xs ih =>
    rw [List.forall_mem_cons] at h
    exact bind_eq_ok.2 ⟨(), h.1, ih h.2⟩

theorem exists_error_of_forM {check : α → Except ε Unit} {xs : List α} {e : ε}
    (h : xs.forM check = .error e) : ∃ x ∈ xs, check x = .error e := by
  induction xs with
  | nil => cases h
  | cons a xs ih =>
    rcases bind_eq_error.1 h with h | ⟨-, -, h⟩
    · exact ⟨a, List.mem_cons_self, h⟩
    · obtain ⟨x, hx, hcheck⟩ := ih h
      exact ⟨x, List.mem_cons_of_mem a hx, hcheck⟩

theorem length_of_mapM {check : α → Except ε β} {xs : List α} {ys : List β}
    (h : xs.mapM check = .ok ys) : ys.length = xs.length := by
  induction xs generalizing ys with
  | nil =>
    cases h
    rfl
  | cons a xs ih =>
    rw [List.mapM_cons] at h
    obtain ⟨b, -, h⟩ := bind_eq_ok.1 h
    obtain ⟨bs, hxs, h⟩ := bind_eq_ok.1 h
    cases h
    rw [List.length_cons, List.length_cons, ih hxs]

theorem mem_mapM_iff {check : α → Except ε β} {xs : List α} {ys : List β}
    (h : xs.mapM check = .ok ys) {y : β} : y ∈ ys ↔ ∃ x ∈ xs, check x = .ok y := by
  induction xs generalizing ys with
  | nil =>
    cases h
    simp
  | cons a xs ih =>
    rw [List.mapM_cons] at h
    obtain ⟨b, ha, h⟩ := bind_eq_ok.1 h
    obtain ⟨bs, hxs, h⟩ := bind_eq_ok.1 h
    cases h
    simp [ha, ih hxs, eq_comm]

theorem map_mapM {γ : Type} {check : α → Except ε β} {f : α → γ} {g : β → γ} {xs : List α}
    {ys : List β} (h : xs.mapM check = .ok ys) (hg : ∀ x y, check x = .ok y → g y = f x) :
    ys.map g = xs.map f := by
  induction xs generalizing ys with
  | nil =>
    cases h
    rfl
  | cons a xs ih =>
    rw [List.mapM_cons] at h
    obtain ⟨b, ha, h⟩ := bind_eq_ok.1 h
    obtain ⟨bs, hxs, h⟩ := bind_eq_ok.1 h
    cases h
    simp [hg a b ha, ih hxs]

theorem zip_mapM_ok {check : α → Except ε β} {xs : List α} {ys : List β}
    (h : xs.mapM check = .ok ys) {k : Nat} {x : α} {y : β} :
    (xs.zip ys)[k]? = some (x, y) ↔ xs[k]? = some x ∧ check x = .ok y := by
  induction xs generalizing ys k with
  | nil => simp
  | cons a xs ih =>
    rw [List.mapM_cons] at h
    obtain ⟨b, ha, h⟩ := bind_eq_ok.1 h
    obtain ⟨bs, hxs, h⟩ := bind_eq_ok.1 h
    cases h
    cases k with
    | zero =>
      simp only [List.zip_cons_cons, List.getElem?_cons_zero, Option.some.injEq, Prod.mk.injEq]
      constructor
      · rintro ⟨rfl, rfl⟩
        exact ⟨rfl, ha⟩
      · rintro ⟨rfl, hy⟩
        rw [ha, Except.ok.injEq] at hy
        exact ⟨rfl, hy⟩
    | succ k => exact ih hxs

end SchemaStructs
