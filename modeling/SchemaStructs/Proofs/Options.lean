import SchemaStructs.Options
import SchemaStructs.Proofs.Outcome

set_option autoImplicit false

namespace SchemaStructs.Options

open Identifier

variable {o : Options}

theorem checkSegment_eq_ok {isOutermost : Bool} {segment : String}
    (h : checkSegment isOutermost segment = .ok ()) :
    isIdentifier segment = true ∧ isReserved segment = false := by
  unfold checkSegment at h
  split at h
  · cases h
  · next hgood => simpa using hgood

theorem checkSegment_error {isOutermost : Bool} {segment : String} {e : HeaderError}
    (h : checkSegment isOutermost segment = .error e) : ∃ d, e = .invalidOptions d := by
  unfold checkSegment at h
  split at h
  · exact ⟨_, (Except.error.inj h).symm⟩
  · split at h
    · exact ⟨_, (Except.error.inj h).symm⟩
    · cases h

theorem checkSegments_eq_ok {segments : List String} (h : checkSegments segments = .ok ()) :
    ∀ segment ∈ segments, isIdentifier segment = true ∧ isReserved segment = false := by
  cases segments with
  | nil => simp
  | cons outermost inner =>
    obtain ⟨⟨⟩, houtermost, hinner⟩ := bind_eq_ok.1 h
    rw [List.forall_mem_cons]
    exact ⟨checkSegment_eq_ok houtermost, fun segment hmem =>
      checkSegment_eq_ok (forM_eq_ok hinner segment hmem)⟩

theorem checkSegments_error {segments : List String} {e : HeaderError}
    (h : checkSegments segments = .error e) : ∃ d, e = .invalidOptions d := by
  cases segments with
  | nil => cases h
  | cons outermost inner =>
    rcases bind_eq_error.1 h with h | ⟨-, -, h⟩
    · exact checkSegment_error h
    · obtain ⟨segment, -, h⟩ := exists_error_of_forM h
      exact checkSegment_error h

theorem validate_eq (o : Options) : o.validate =
    if o.namespaces.isEmpty then .error (.invalidOptions .emptyNamespace)
    else (checkSegments o.segments).bind fun _ =>
      if isGuardStart o.guardStart then .ok ()
      else .error (.invalidOptions (.guardNotUpperCase o.guardStart)) := by
  unfold validate
  cases o.namespaces.isEmpty with
  | true => rfl
  | false =>
    cases checkSegments o.segments with
    | error e => rfl
    | ok _ => cases isGuardStart o.guardStart <;> rfl

theorem validate_eq_ok (h : o.validate = .ok ()) :
    (∀ segment ∈ o.segments, isIdentifier segment = true ∧ isReserved segment = false) ∧
      isGuardStart o.guardStart = true := by
  rw [validate_eq] at h
  split at h
  · cases h
  · obtain ⟨⟨⟩, hsegments, h⟩ := bind_eq_ok.1 h
    split at h
    · next hguard => exact ⟨checkSegments_eq_ok hsegments, hguard⟩
    · cases h

theorem validate_error {e : HeaderError} (h : o.validate = .error e) :
    ∃ d, e = .invalidOptions d := by
  rw [validate_eq] at h
  split at h
  · exact ⟨_, (Except.error.inj h).symm⟩
  · rcases bind_eq_error.1 h with h | ⟨-, -, h⟩
    · exact checkSegments_error h
    · split at h
      · cases h
      · exact ⟨_, (Except.error.inj h).symm⟩

end SchemaStructs.Options
