import SchemaStructs.Proofs.Command.Disk

set_option autoImplicit false

namespace SchemaStructs

def Manifest.ofText? : Option String → Option Manifest
  | none => some {}
  | some text => ofToml? text

def Disk.Supplies (d : Disk) : (path text : Option String) → Prop
  | some path, some text => d.read path = some text
  | some _, none => False
  | none, some text => d.read defaultManifest = some text
  | none, none => d.find? defaultManifest = none

@[simp] theorem mapError_elim {ε δ α : Type} (f : ε → δ) (e : ε) (x : Option α) :
    (x.elim (.error e) Except.ok).mapError f = x.elim (.error (f e)) .ok := by
  cases x <;> rfl

@[simp] theorem elim_eq_ok {ε α : Type} {e : ε} {x : Option α} {a : α} :
    x.elim (.error e) Except.ok = .ok a ↔ x = some a := by
  cases x <;> simp

namespace Disk

def manifestAt (d : Disk) (path : String) : Except Failure Manifest :=
  (d.read path).elim (.error (.manifestUnreadable path)) fun text =>
    (Manifest.ofToml? text).elim (.error .manifestMalformed) .ok

def manifestFor (d : Disk) : (path : Option String) → Except Failure Manifest
  | some path => d.manifestAt path
  | none => if (d.find? defaultManifest).isSome then d.manifestAt defaultManifest else .ok {}

def documentAt (d : Disk) (path : String) : Except Failure Document :=
  (d.read path).elim (.error (.schemaUnreadable path)) fun text =>
    (Document.ofText? text).elim (.error (.schemaMalformed path)) .ok

def prepare (d : Disk) (schema : String) (manifestPath : Option String)
    (requested : List String) : Except Failure (Manifest × List (String × Module)) := do
  let manifest ← d.manifestFor manifestPath
  manifest.validate.mapError .manifestInvalid
  let document ← d.documentAt schema
  let selected ← select document manifest requested
  return (manifest, selected)

variable {d : Disk}

theorem isSome_find?_of_read {path text : String} (h : d.read path = some text) :
    (d.find? path).isSome = true := by
  rw [read] at h
  split at h
  · next hfind => rw [hfind]; rfl
  · cases h

theorem Supplies.unique {path text text' : Option String} (h : d.Supplies path text)
    (h' : d.Supplies path text') : text = text' := by
  match path, text, text' with
  | some path, some text, some text' => exact h.symm.trans h'
  | some path, none, _ | some path, _, none => contradiction
  | none, some text, some text' => exact h.symm.trans h'
  | none, none, none => rfl
  | none, some text, none | none, none, some text =>
    have hthere : d.find? defaultManifest = none := ‹d.Supplies none none›
    have hread : d.read defaultManifest = some text := ‹d.Supplies none (some text)›
    simpa [hthere] using isSome_find?_of_read hread

theorem manifestAt_eq {path text : String} (h : d.read path = some text) :
    d.manifestAt path = (Manifest.ofToml? text).elim (.error .manifestMalformed) .ok := by
  rw [manifestAt, h, Option.elim_some]

theorem manifestFor_eq {path text : Option String} (h : d.Supplies path text) :
    d.manifestFor path = (Manifest.ofText? text).elim (.error .manifestMalformed) .ok := by
  match path, text with
  | some path, some text => exact manifestAt_eq h
  | some path, none => exact h.elim
  | none, some text => rw [manifestFor, if_pos (isSome_find?_of_read h), manifestAt_eq h]; rfl
  | none, none =>
    have hthere : d.find? defaultManifest = none := h
    rw [manifestFor, hthere]
    rfl

theorem exists_of_manifestFor {path : Option String} {manifest : Manifest}
    (h : d.manifestFor path = .ok manifest) :
    ∃ text, d.Supplies path text ∧ Manifest.ofText? text = some manifest := by
  have hat : ∀ {p : String}, d.manifestAt p = .ok manifest →
      ∃ text, d.read p = some text ∧ Manifest.ofToml? text = some manifest := by
    intro p hp
    unfold manifestAt at hp
    cases hread : d.read p with
    | none => simp [hread] at hp
    | some text =>
      rw [hread, Option.elim_some, elim_eq_ok] at hp
      exact ⟨text, rfl, hp⟩
  match path with
  | some p =>
    obtain ⟨text, hread, htext⟩ := hat h
    exact ⟨some text, hread, htext⟩
  | none =>
    simp only [manifestFor] at h
    split at h
    · obtain ⟨text, hread, htext⟩ := hat h
      exact ⟨some text, hread, htext⟩
    · next hthere =>
      rw [Option.not_isSome_iff_eq_none] at hthere
      exact ⟨none, hthere, congrArg some (Except.ok.inj h)⟩

theorem exists_of_documentAt {path : String} {document : Document}
    (h : d.documentAt path = .ok document) :
    ∃ text, d.read path = some text ∧ Document.ofText? text = some document := by
  unfold documentAt at h
  cases hread : d.read path with
  | none => simp [hread] at h
  | some text =>
    rw [hread, Option.elim_some, elim_eq_ok] at h
    exact ⟨text, rfl, h⟩

theorem documentAt_eq {path text : String} (h : d.read path = some text) :
    d.documentAt path = (Document.ofText? text).elim (.error (.schemaMalformed path)) .ok := by
  rw [documentAt, h, Option.elim_some]

end Disk

namespace Command

variable {α β : Type} {s s' : Session}

def run (c : ExceptT (Halt Failure) (StateM Session) α) (s : Session) :
    Except (Halt Failure) α × Session :=
  StateT.run (ExceptT.run c) s

@[simp] theorem run_pure (a : α) : run (pure a) s = (.ok a, s) := rfl

@[simp] theorem run_fail (f : Failure) :
    run (fail f : ExceptT (Halt Failure) (StateM Session) α) s =
    (.error (.failed f), s) := rfl

theorem run_bind (c : ExceptT (Halt Failure) (StateM Session) α)
    (f : α → ExceptT (Halt Failure) (StateM Session) β) (s : Session) :
    run (c >>= f) s =
      match run c s with
      | (.ok a, s') => run (f a) s'
      | (.error e, s') => (.error e, s') := by
  simp only [run, ExceptT.run_bind, StateT.run_bind]
  rcases c.run.run s with ⟨r, s'⟩
  cases r <;> rfl

@[simp] theorem run_ofExcept {ε : Type} (halt : ε → Halt Failure) (x : Except ε α) :
    run (ofExcept halt x) s = (x.mapError halt, s) := by
  cases x <;> rfl

@[simp] theorem run_ofOption (failure : Failure) (x : Option α) :
    run (ofOption failure x) s = (x.elim (.error (.failed failure)) .ok, s) := by
  cases x <;> rfl

@[simp] theorem run_isThere (path : String) :
    run (liftM (Disk.host.isThere path)) s = (.ok (s.disk.find? path).isSome, s) := rfl

@[simp] theorem run_read (path : String) :
    run (liftM (Disk.host.read path)) s = (.ok (s.disk.read path), s) := rfl

@[simp] theorem run_say (line : String) :
    run (liftM (Disk.host.say line)) s = (.ok (), { s with out := s.out ++ line ++ "\n" }) := rfl

@[simp] theorem run_complain (line : String) :
    run (liftM (Disk.host.complain line)) s = (.ok (), { s with err := s.err ++ line ++ "\n" }) :=
  rfl

@[simp] theorem run_makeDirectory (path : String) :
    run (liftM (Disk.host.makeDirectory path)) s =
      (.ok (s.disk.makeDirectory path).2, { s with disk := (s.disk.makeDirectory path).1 }) := rfl

theorem run_write {path : String} {place : List String} (h : s.disk.Takes path place)
    (text : String) : run (liftM (Disk.host.write path text)) s =
      (.ok true, { s with disk := s.disk.put place (.file text) }) := by
  have hwrite : s.disk.write? path text = some (s.disk.put place (.file text)) :=
    Disk.write?_eq_some_iff.2 ⟨place, h, rfl⟩
  have hrun : (Disk.host.write path text).run s =
      (true, { s with disk := s.disk.put place (.file text) }) := by
    simp only [Disk.host, StateT.run_modifyGet, hwrite]
    rfl
  change (Except.ok ((Disk.host.write path text).run s).1,
    ((Disk.host.write path text).run s).2) = _
  rw [hrun]

@[simp] theorem run_readManifest (path : String) :
    run (readManifest Disk.host path) s =
      ((s.disk.manifestAt path).mapError .failed, s) := by
  simp only [readManifest, run_bind, run_read, run_ofOption, Disk.manifestAt]
  cases s.disk.read path <;> simp

@[simp] theorem run_loadManifest (path : Option String) :
    run (loadManifest Disk.host path) s =
      ((s.disk.manifestFor path).mapError .failed, s) := by
  match path with
  | some path => exact run_readManifest path
  | none =>
    simp only [loadManifest, run_bind, run_isThere, Disk.manifestFor]
    split <;> simp

@[simp] theorem run_readDocument (path : String) :
    run (readDocument Disk.host path) s =
      ((s.disk.documentAt path).mapError .failed, s) := by
  simp only [readDocument, run_bind, run_read, run_ofOption, Disk.documentAt]
  cases s.disk.read path <;> simp

end Command

end SchemaStructs
