import Mathlib.Data.List.Nodup
import SchemaStructs.Proofs.Command.Generate

/-!
The command that only checks, beside the one that writes. Both read the same files and select and
generate the same modules, so as long as the system lets it write, the second ends as the first
foretells.
-/

set_option autoImplicit false

namespace SchemaStructs

namespace Command

def isRefused : Except (Halt Failure) Unit → Bool
  | .error (.failed (.directoryNotMade _)) | .error (.failed (.fileNotWritten _)) => true
  | _ => false

variable {α : Type} {s : Session}

theorem run_forM_say (line : α → String) (as : List α) :
    run (as.forM fun a => liftM (Disk.host.say (line a))) s =
      (.ok (), { s with out := s.out ++ String.join (as.map fun a => line a ++ "\n") }) := by
  induction as generalizing s with
  | nil =>
    simp only [List.map_nil, String.join_nil, String.append_empty]
    rfl
  | cons a as ih =>
    change run (liftM (Disk.host.say (line a)) >>= fun _ =>
      as.forM fun a => liftM (Disk.host.say (line a))) s = _
    rw [run_bind, run_say]
    simp only [ih, List.map_cons, String.join_cons, String.append_assoc]

section

variable {manifest : Manifest} {directory : String}

def mark (o : Outcome) : String :=
  match o.result with
  | .ok _ => good o.name
  | .error e => bad o.name e

def report (results : List Outcome) : ExceptT (Halt Failure) (StateM Session) Unit := do
  results.forM fun o => Disk.host.say (mark o)
  let failed := failures results
  unless failed.isEmpty do fail (.modulesRejected failed.length results.length)
  Disk.host.say "\nSchema is valid!"

theorem run_report (results : List Outcome) :
    run (report results) s =
      (if failures results = [] then .ok () else
        .error (.failed (.modulesRejected (failures results).length results.length)),
      { s with
        out := s.out ++ String.join (results.map fun o => mark o ++ "\n") ++
          if failures results = [] then "\nSchema is valid!" ++ "\n" else "" }) := by
  simp only [report, run_bind, run_forM_say, List.isEmpty_iff]
  by_cases hnone : failures results = []
  · simp only [hnone, if_true, run_say, String.append_assoc]
  · simp only [hnone, if_false, String.append_empty]
    rfl

/-- The check reads what the other command reads, prints one line on the way, and goes on to
report. -/
theorem run_check (schema : String) (manifestPath : Option String) (requested : List String) :
    match s.disk.prepare schema manifestPath requested with
    | .error e => ∃ s', run (check Disk.host schema manifestPath requested) s =
        (.error (.failed e), s') ∧ s'.disk = s.disk
    | .ok (manifest, selected) =>
        let checking := { s with out := s.out ++ ("Checking schema: " ++ schema) ++ "\n" }
        run (check Disk.host schema manifestPath requested) s =
          match outcomes manifest.options selected with
          | .error halt => (.error halt, checking)
          | .ok results => run (report results) checking := by
  simp only [check, Disk.prepare, run_bind, run_loadManifest]
  cases s.disk.manifestFor manifestPath with
  | error e => exact ⟨s, rfl, rfl⟩
  | ok manifest =>
    simp only [validate, run_ofExcept, ok_bind, mapError_ok]
    cases manifest.validate with
    | error d => exact ⟨s, rfl, rfl⟩
    | ok u =>
      simp only [mapError_ok, run_say, run_readDocument, ok_bind]
      cases s.disk.documentAt schema with
      | error e => exact ⟨_, rfl, rfl⟩
      | ok document =>
        simp only [ok_bind, mapError_ok]
        cases select document manifest requested with
        | error e => exact ⟨_, rfl, rfl⟩
        | ok selected =>
          simp only [mapError_ok, ok_bind, pure_eq]
          cases outcomes manifest.options selected with
          | error halt => rfl
          | ok results =>
            simp only [report, run_bind]
            rfl

theorem run_write_refused {path text : String} (h : s.disk.write? path text = none) :
    run (liftM (Disk.host.write path text)) s = (.ok false, s) := by
  have hrun : (Disk.host.write path text).run s = (false, s) := by
    simp only [Disk.host, StateT.run_modifyGet, h]
    rfl
  change (Except.ok ((Disk.host.write path text).run s).1,
    ((Disk.host.write path text).run s).2) = _
  rw [hrun]

/-- Either the system refuses a file, or there was a place for each file from the start. -/
theorem run_writeHeaders_cases (manifest : Manifest) (directory : String) (os : List Outcome) :
    (∃ path s', run (writeHeaders Disk.host manifest directory os) s =
      (.error (.failed (.fileNotWritten path)), s')) ∨
    ∀ o ∈ os, ∀ header, o.result = .ok header →
      ∃ place, s.disk.Takes (join directory (manifest.fileName o.name)) place := by
  induction os generalizing s with
  | nil => exact .inr fun o ho => by cases ho
  | cons o os ih =>
    obtain ⟨name, result⟩ := o
    cases result with
    | error e =>
      refine ih.imp id fun hrest => ?_
      rw [List.forall_mem_cons]
      exact ⟨nofun, hrest⟩
    | ok header =>
      cases hwrite : s.disk.write? (join directory (manifest.fileName name)) header with
      | none =>
        refine .inl ⟨join directory (manifest.fileName name), s, ?_⟩
        simp only [writeHeaders, run_bind, run_write_refused hwrite]
        rfl
      | some after =>
        obtain ⟨place, htakes, rfl⟩ := Disk.write?_eq_some_iff.1 hwrite
        rcases ih (s := { s with disk := s.disk.put place (.file header) }) with
          ⟨path, s', hrun⟩ | hrest
        · refine .inl ⟨path, s', ?_⟩
          simp only [writeHeaders, run_bind, run_write htakes, if_true, hrun]
        · refine .inr (List.forall_mem_cons.2 ⟨fun _ _ => ⟨place, htakes⟩, fun o ho text hok => ?_⟩)
          obtain ⟨place', htakes'⟩ := hrest o ho text hok
          exact ⟨place', htakes'.of_put htakes⟩

theorem run_deliver_cases {results : List Outcome}
    (hgo : manifest.output.failFast = true → failures results = []) (directory : String) :
    (∃ result s', run (deliver manifest directory results) s = (result, s') ∧
      isRefused result = true) ∨
    ∃ made, s.disk.makeDirectory directory = (made, true) ∧
      ∀ o ∈ results, ∀ header, o.result = .ok header →
        ∃ place, made.Takes (join directory (manifest.fileName o.name)) place := by
  rcases hmade : s.disk.makeDirectory directory with ⟨made, there⟩
  simp only [deliver, run_bind, run_stopAtFailure hgo, run_makeDirectory, hmade]
  cases there with
  | false => exact .inl ⟨_, _, rfl, rfl⟩
  | true =>
    simp only [if_true]
    rcases run_writeHeaders_cases manifest directory results (s := ⟨made, s.out, s.err⟩) with
      ⟨path, s', hrun⟩ | htakes
    · refine .inl ⟨.error (.failed (.fileNotWritten path)), s', ?_, rfl⟩
      rw [run_bind, hrun]
    · exact .inr ⟨made, rfl, htakes⟩

end

section

variable {manifest : Manifest} {document : Document} {schema : String}
  {output manifestPath : Option String} {requested : List String}
  {verdict result : Except (Halt Failure) Unit} {checked generated : Session}

/-- Where the files or the list in force are not accepted, both commands stop for one reason. -/
theorem both_stop
    (hcheck : run (check Disk.host schema manifestPath requested) s = (verdict, checked))
    (hgenerate : run (generate Disk.host schema output manifestPath requested) s =
      (result, generated))
    (h : ¬ ∃ manifest document, Accepts s.disk schema manifestPath requested manifest document) :
    checked.disk = s.disk ∧ generated = s ∧
      ∃ e, verdict = .error (.failed e) ∧ result = .error (.failed e) := by
  have hrun := run_check (s := s) schema manifestPath requested
  rw [run_generate] at hgenerate
  cases hprepare : s.disk.prepare schema manifestPath requested with
  | error e =>
    rw [hprepare] at hrun hgenerate
    obtain ⟨s', hrun, hdisk⟩ := hrun
    obtain ⟨rfl, rfl⟩ := Prod.mk.inj (hcheck.symm.trans hrun)
    obtain ⟨rfl, rfl⟩ := Prod.mk.inj hgenerate
    exact ⟨hdisk, rfl, e, rfl, rfl⟩
  | ok r =>
    obtain ⟨document, haccepts, -⟩ := prepare_eq_ok_iff.1 hprepare
    exact absurd ⟨_, document, haccepts⟩ h

section

variable
  (hcheck : run (check Disk.host schema manifestPath requested) s = (verdict, checked))
  (h : Accepts s.disk schema manifestPath requested manifest document)

include hcheck h

theorem check_endless (hends : Endless manifest document requested) :
    verdict = .error .endless ∧
      checked = { s with out := s.out ++ ("Checking schema: " ++ schema) ++ "\n" } := by
  obtain ⟨selected, hselect, hoptions, hprepare⟩ := h.exists_prepared
  have hrun := run_check (s := s) schema manifestPath requested
  rw [hprepare] at hrun
  simp only [hcheck, outcomes_endless hselect hoptions hends, Prod.mk.injEq] at hrun
  exact hrun

/-- Each module in force is marked, in the order of their names, and the check is passed if none
of them fails. -/
theorem exists_marked (hends : ¬ Endless manifest document requested) :
    ∃ results : List Outcome, results.Pairwise (fun a b => a.name < b.name) ∧
      (∀ o, o ∈ results ↔ Gives manifest document requested o.name o.result) ∧
      checked = { s with
        out := s.out ++ ("Checking schema: " ++ schema) ++ "\n" ++
          String.join (results.map fun o => mark o ++ "\n") ++
            if failures results = [] then "\nSchema is valid!" ++ "\n" else "" } ∧
      verdict = if failures results = [] then .ok () else
        .error (.failed (.modulesRejected (failures results).length results.length)) := by
  obtain ⟨selected, hselect, -, hprepare⟩ := h.exists_prepared
  obtain ⟨results, houtcomes⟩ := exists_outcomes hselect hends
  obtain ⟨hsorted, hresults⟩ := outcomes_ok hselect houtcomes
  have hrun := run_check (s := s) schema manifestPath requested
  rw [hprepare] at hrun
  simp only [hcheck, houtcomes, run_report, Prod.mk.injEq] at hrun
  exact ⟨results, hsorted, hresults, hrun.2, hrun.1⟩

theorem verdict_eq_ok_iff (hends : ¬ Endless manifest document requested) :
    verdict = .ok () ↔ ¬ Fails manifest document requested := by
  obtain ⟨results, -, hresults, -, rfl⟩ := exists_marked hcheck h hends
  rw [← failures_eq_nil_iff hresults]
  split <;> simp [*]

end

section

variable
  (hgenerate : run (generate Disk.host schema output manifestPath requested) s =
    (result, generated))
  (h : Accepts s.disk schema manifestPath requested manifest document)
  (hends : ¬ Endless manifest document requested) (hallowed : isRefused result = false)

include hgenerate h hends hallowed

theorem exists_made
    (hgo : ¬ (manifest.output.failFast = true ∧ Fails manifest document requested)) :
    (result = .ok () ↔ ¬ Fails manifest document requested) ∧
    ∃ made, s.disk.makeDirectory (output.getD manifest.output.directory) = (made, true) ∧
      Written manifest document requested (output.getD manifest.output.directory) made
        generated.disk := by
  obtain ⟨results, s₁, -, hresults, hdisk, hrun⟩ := generate_delivers h output hends
  have hfailures := failures_eq_nil_iff hresults
  rcases run_deliver_cases (s := s₁) (fun hfast => hfailures.2 fun hfails => hgo ⟨hfast, hfails⟩)
    (output.getD manifest.output.directory) with
    ⟨result', s', hdeliver, hrefused⟩ | ⟨made, hmade, htakes⟩
  · obtain ⟨rfl, -⟩ := Prod.mk.inj (hgenerate.symm.trans (hrun.trans hdeliver))
    simp [hallowed] at hrefused
  · rw [hdisk] at hmade
    obtain ⟨result', s', hrun, hok, hfailed, hwritten⟩ :=
      generate_writes h hends hgo hmade fun name header hgives => by
        obtain ⟨place, hplace⟩ := htakes ⟨name, .ok header⟩ ((hresults _).2 hgives) header rfl
        simp [Disk.write?_eq_some_iff.2 ⟨place, hplace, rfl⟩]
    obtain ⟨rfl, rfl⟩ := Prod.mk.inj (hgenerate.symm.trans hrun)
    refine ⟨⟨fun hresult hfails => ?_, hok⟩, made, hmade, hwritten⟩
    obtain ⟨e, he⟩ := hfailed hfails
    simp [he] at hresult

theorem result_eq_ok_iff : result = .ok () ↔ ¬ Fails manifest document requested := by
  by_cases hstop : manifest.output.failFast = true ∧ Fails manifest document requested
  · obtain ⟨e, s', hrun, -⟩ := generate_stops h output hends hstop.1 hstop.2
    obtain ⟨rfl, -⟩ := Prod.mk.inj (hgenerate.symm.trans hrun)
    simp [hstop.2]
  · exact (exists_made hgenerate h hends hallowed hstop).1

end

structure WritesJust (manifest : Manifest) (results : List Outcome) (base : List String)
    (made after : Disk) : Prop where
  written : ∀ o ∈ results, ∀ header, o.result = .ok header →
    after.get? (base ++ [manifest.fileName o.name]) = some (.file header)
  skipped : ∀ o ∈ results, ∀ e, o.result = .error e →
    after.get? (base ++ [manifest.fileName o.name]) = made.get? (base ++ [manifest.fileName o.name])
  rest : ∀ place, (∀ o ∈ results, place ≠ base ++ [manifest.fileName o.name]) →
    after.get? place = made.get? place

theorem Written.just {results : List Outcome} {directory : String} {made after : Disk}
    (h : Written manifest document requested directory made after)
    (hsorted : results.Pairwise fun a b => a.name < b.name)
    (hresults : ∀ o, o ∈ results ↔ Gives manifest document requested o.name o.result) :
    ∃ base, made.walk (made.start directory) (Disk.components directory) = .ok base ∧
      WritesJust manifest results base made after := by
  obtain ⟨base, hbase, hfiles, hframe⟩ := h.places
  have hnames : (results.map (·.name)).Nodup := by
    rw [List.Nodup, List.pairwise_map]
    refine hsorted.imp fun {a b} hlt heq => ?_
    rw [heq] at hlt
    exact String.lt_irrefl _ hlt
  refine ⟨base, hbase, ?_, ?_, ?_⟩
  · intro o ho header hok
    exact (hfiles o.name header (hok ▸ (hresults o).1 ho)).2
  · intro o ho e herror
    -- The file of another module has another name, and no module both fails and has a header.
    refine hframe _ fun name header hgives hplace => ?_
    have hfile : manifest.fileName o.name = manifest.fileName name := by simpa using hplace
    have hmem : ⟨name, .ok header⟩ ∈ results := (hresults ⟨name, .ok header⟩).2 hgives
    obtain rfl := List.inj_on_of_nodup_map hnames ho hmem (h.apart _ _ hfile)
    cases herror
  · intro place hplace
    exact hframe place fun name header hgives =>
      hplace ⟨name, .ok header⟩ ((hresults ⟨name, .ok header⟩).2 hgives)

theorem accepts_orders : ∃ document e,
    Accepts ordersDisk "/orders.json" none [] {} document ∧
    ¬ Endless {} document [] ∧ Gives {} document [] "users" (.error e) := by
  obtain ⟨document, orders, users, header, e, hdocument, hentries, horders, husers⟩ :=
    exists_ordersDocument
  have hnames : document.modules.names = ["orders", "users"] := by simp [NameMap.names, hentries]
  have hmanifest : ordersDisk.Supplies none none := by
    change ordersDisk.find? defaultManifest = none
    decide +kernel
  have hforce : namesInForce {} document [] = ["orders", "users"] := hnames
  have haccepted : Accepted none ordersSchema [] {} document :=
    accepted_of_names hdocument hnames (by decide) fun name hname => hforce ▸ hname
  exact ⟨document, e, ⟨none, ordersSchema, hmanifest, by decide +kernel, haccepted⟩,
    not_endless_orders hentries horders husers,
    (gives_orders hentries horders husers (by simp [hforce]) _ _).2 (.inr ⟨rfl, rfl⟩)⟩

theorem not_accepts_missing :
    ¬ ∃ manifest document,
      Accepts ordersDisk "/orders.json" none ["missing"] manifest document := by
  rintro ⟨manifest, document, manifestText, schemaText, -, hschema, haccepted⟩
  obtain ⟨document', orders, users, -, -, hdocument, hentries, -⟩ := exists_ordersDocument
  have hread : ordersDisk.read "/orders.json" = some ordersSchema := by decide +kernel
  obtain rfl := Option.some.inj (hread.symm.trans hschema)
  obtain rfl := Option.some.inj (hdocument.symm.trans haccepted.schemaRead)
  have hmissing := haccepted.known "missing" (by simp [namesInForce])
  simp [NameMap.names, hentries] at hmissing

theorem accepts_loops : ∃ document,
    Accepts ordersDisk "../loops.json" none [] {} document ∧ Endless {} document [] := by
  obtain ⟨document, hdocument, hnames, hends⟩ := exists_loopsDocument
  have hmanifest : ordersDisk.Supplies none none := by
    change ordersDisk.find? defaultManifest = none
    decide +kernel
  have haccepted : Accepted none loopsSchema [] {} document :=
    accepted_of_names hdocument hnames (by decide) fun name hname => hnames ▸ hname
  exact ⟨document, ⟨none, loopsSchema, hmanifest, by decide +kernel, haccepted⟩, hends⟩

end

end Command

end SchemaStructs
