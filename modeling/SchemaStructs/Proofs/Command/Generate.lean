import SchemaStructs.Proofs.Command.Batch
import SchemaStructs.Proofs.Command.Run

set_option autoImplicit false

namespace SchemaStructs

namespace Command

variable {α : Type} {s : Session}

section

variable {manifest : Manifest} {directory : String} {base : List String}

def headerFiles (manifest : Manifest) (base : List String) (os : List Outcome) :
    List (List String × String) :=
  os.filterMap fun o => o.result.toOption.map fun header =>
    (base ++ [manifest.fileName o.name], header)

theorem run_writeHeaders {os : List Outcome}
    (h : ∀ o ∈ os, ∀ header, o.result = .ok header →
      s.disk.Takes (join directory (manifest.fileName o.name))
        (base ++ [manifest.fileName o.name])) :
    ∃ paths, run (writeHeaders Disk.host manifest directory os) s =
      (.ok paths, { s with disk := s.disk.putAll (headerFiles manifest base os) }) := by
  induction os generalizing s with
  | nil => exact ⟨[], rfl⟩
  | cons o os ih =>
    obtain ⟨name, result⟩ := o
    obtain ⟨hhead, hrest⟩ := List.forall_mem_cons.1 h
    cases result with
    | error e => exact ih hrest
    | ok header =>
      have htakes := hhead header rfl
      obtain ⟨paths, hpaths⟩ := ih
        (s := { s with disk := s.disk.put (base ++ [manifest.fileName name]) (.file header) })
        fun o ho header' hresult => (hrest o ho header' hresult).put htakes header
      refine ⟨join directory (manifest.fileName name) :: paths, ?_⟩
      simp only [writeHeaders, run_bind, run_write htakes, if_true, hpaths]
      rfl

/-- Lines that are printed one after the other leave the disk as it is. -/
theorem run_forM {f : α → ExceptT (Halt Failure) (StateM Session) Unit}
    (h : ∀ a s, ∃ s', run (f a) s = (.ok (), s') ∧ s'.disk = s.disk) (as : List α) :
    ∃ s', run (as.forM f) s = (.ok (), s') ∧ s'.disk = s.disk := by
  induction as generalizing s with
  | nil => exact ⟨s, rfl, rfl⟩
  | cons a as ih =>
    obtain ⟨s₁, hrun₁, hdisk₁⟩ := h a s
    obtain ⟨s₂, hrun₂, hdisk₂⟩ := ih (s := s₁)
    refine ⟨s₂, ?_, hdisk₂.trans hdisk₁⟩
    change run (f a >>= fun _ => as.forM f) s = _
    rw [run_bind, hrun₁]
    exact hrun₂

def deliver (manifest : Manifest) (directory : String) (results : List Outcome) :
    ExceptT (Halt Failure) (StateM Session) Unit := do
  let failed := failures results
  stopAtFailure manifest failed
  unless ← Disk.host.makeDirectory directory do fail (.directoryNotMade directory)
  let written ← writeHeaders Disk.host manifest directory results
  written.forM fun path => Disk.host.say (good path)
  failed.forM fun (name, e) => Disk.host.complain (bad name e)
  unless failed.isEmpty do fail (.modulesNotWritten (failed.map (·.1)) results.length)

def announced (s : Session) (schema directory : String) (selected : List (String × Module)) :
    Session :=
  { s with
    out := s.out ++ ("Generating " ++ toString selected.length ++ " module(s) from " ++ schema ++
      " into " ++ directory) ++ "\n" }

theorem run_generate {schema : String} {output manifestPath : Option String}
    {requested : List String} :
    run (generate Disk.host schema output manifestPath requested) s =
      match s.disk.prepare schema manifestPath requested with
      | .error e => (.error (.failed e), s)
      | .ok (manifest, selected) =>
        let directory := output.getD manifest.output.directory
        match outcomes manifest.options selected with
        | .error halt => (.error halt, announced s schema directory selected)
        | .ok results =>
          run (deliver manifest directory results) (announced s schema directory selected) := by
  simp only [generate, Disk.prepare, run_bind, run_loadManifest]
  cases s.disk.manifestFor manifestPath with
  | error e => rfl
  | ok manifest =>
    simp only [validate, run_ofExcept, ok_bind, mapError_ok]
    cases manifest.validate with
    | error d => rfl
    | ok u =>
      simp only [mapError_ok, run_readDocument, ok_bind]
      cases s.disk.documentAt schema with
      | error e => rfl
      | ok document =>
        simp only [ok_bind, mapError_ok]
        cases select document manifest requested with
        | error e => rfl
        | ok selected =>
          simp only [mapError_ok, run_say, ok_bind, pure_eq]
          cases outcomes manifest.options selected with
          | error halt => rfl
          | ok results =>
            simp only [deliver, run_bind]
            rfl

theorem run_stopAtFailure {failed : List (String × HeaderError)}
    (h : manifest.output.failFast = true → failed = []) :
    run (stopAtFailure manifest failed) s = (.ok (), s) := by
  unfold stopAtFailure
  split
  · next hfast => cases h hfast
  · rfl

variable {results : List Outcome}

theorem run_deliver_stops (hfast : manifest.output.failFast = true)
    (hfailed : failures results ≠ []) :
    ∃ e, run (deliver manifest directory results) s = (.error (.failed e), s) := by
  obtain ⟨⟨name, e⟩, rest, hcons⟩ := List.exists_cons_of_ne_nil hfailed
  simp only [deliver, run_bind, hcons, stopAtFailure, hfast]
  exact ⟨_, rfl⟩

theorem run_deliver {made : Disk}
    (hgo : manifest.output.failFast = true → failures results = [])
    (hmade : s.disk.makeDirectory directory = (made, true))
    (htakes : ∀ o ∈ results, ∀ header, o.result = .ok header →
      made.Takes (join directory (manifest.fileName o.name))
        (base ++ [manifest.fileName o.name])) : ∃ s',
      run (deliver manifest directory results) s =
        (if failures results = [] then .ok () else
          .error (.failed (.modulesNotWritten ((failures results).map (·.1)) results.length)), s') ∧
      s'.disk = made.putAll (headerFiles manifest base results) := by
  simp only [deliver, run_bind, run_stopAtFailure hgo, run_makeDirectory, hmade, if_true]
  obtain ⟨paths, hpaths⟩ := run_writeHeaders (s := ⟨made, s.out, s.err⟩) htakes
  generalize made.putAll (headerFiles manifest base results) = after at hpaths ⊢
  obtain ⟨s₁, hgood, hdisk₁⟩ := run_forM (f := fun path => liftM (Disk.host.say (good path)))
    (fun path s => ⟨_, run_say _, rfl⟩) paths (s := ⟨after, s.out, s.err⟩)
  obtain ⟨s₂, hbad, hdisk₂⟩ := run_forM
    (f := fun (x : String × HeaderError) => liftM (Disk.host.complain (bad x.1 x.2)))
    (fun x s => ⟨_, run_complain _, rfl⟩) (failures results) (s := s₁)
  refine ⟨s₂, ?_, hdisk₂.trans hdisk₁⟩
  simp only [hpaths, hgood, hbad, List.isEmpty_iff]
  split_ifs <;> rfl

end

section

variable {manifest : Manifest} {document : Document} {requested : List String}
  {results : List Outcome}
  (hresults : ∀ o, o ∈ results ↔ Gives manifest document requested o.name o.result)

include hresults

theorem mem_headerFiles_iff {base place : List String} {header : String} :
    (place, header) ∈ headerFiles manifest base results ↔
      ∃ name, Gives manifest document requested name (.ok header) ∧
        place = base ++ [manifest.fileName name] := by
  rw [headerFiles, List.mem_filterMap]
  constructor
  · rintro ⟨⟨name, result⟩, ho, hfile⟩
    cases result with
    | error e => cases hfile
    | ok header' =>
      obtain ⟨rfl, rfl⟩ := Prod.mk.inj (Option.some.inj hfile)
      exact ⟨name, (hresults _).1 ho, rfl⟩
  · rintro ⟨name, hgives, rfl⟩
    exact ⟨⟨name, .ok header⟩, (hresults ⟨name, .ok header⟩).2 hgives, rfl⟩

omit hresults in
theorem nodup_headerFiles (hvalid : manifest.validate = .ok ())
    (hsorted : results.Pairwise fun a b => a.name < b.name) (base : List String) :
    ((headerFiles manifest base results).map (·.1)).Nodup := by
  have hinjective := Manifest.fileName_injective (Manifest.validate_eq_ok_iff.1 hvalid).2.2.1
  rw [List.Nodup, List.pairwise_map, headerFiles, List.pairwise_filterMap]
  refine hsorted.imp fun {a b} hlt f hf g hg heq => ?_
  obtain ⟨_, -, rfl⟩ := Option.map_eq_some_iff.1 hf
  obtain ⟨_, -, rfl⟩ := Option.map_eq_some_iff.1 hg
  have hfile : manifest.fileName a.name = manifest.fileName b.name := by simpa using heq
  rw [hinjective hfile] at hlt
  exact String.lt_irrefl _ hlt

end

/-- One file for each module that has a header, apart from each other, and nothing else changes. -/
structure Written (manifest : Manifest) (document : Document) (requested : List String)
    (directory : String) (made after : Disk) : Prop where
  reads : ∀ name header, Gives manifest document requested name (.ok header) →
    after.read (join directory (manifest.fileName name)) = some header
  apart : ∀ name name', manifest.fileName name = manifest.fileName name' → name = name'
  places : ∃ base, made.walk (made.start directory) (Disk.components directory) = .ok base ∧
    (∀ name header, Gives manifest document requested name (.ok header) →
      made.get? base = some .directory ∧
        after.get? (base ++ [manifest.fileName name]) = some (.file header)) ∧
    ∀ place, (∀ name header, Gives manifest document requested name (.ok header) →
      place ≠ base ++ [manifest.fileName name]) → after.get? place = made.get? place
  workingDirectory : after.workingDirectory = made.workingDirectory

/-- The texts of manifest and schema are good, and the modules in force are there and have names
that files can have. -/
structure Accepted (manifestText : Option String) (schemaText : String) (requested : List String)
    (manifest : Manifest) (document : Document) : Prop where
  manifestRead : Manifest.ofText? manifestText = some manifest
  valid : manifest.validate = .ok ()
  schemaRead : Document.ofText? schemaText = some document
  known : ∀ name ∈ namesInForce manifest document requested, name ∈ document.modules.names
  usable : ∀ name ∈ namesInForce manifest document requested, UsableName name

section

variable {manifest : Manifest} {document : Document} {requested : List String}
  {manifestText : Option String} {schema schemaText : String} {output manifestPath : Option String}

theorem written_putAll {directory : String} {made : Disk} {results : List Outcome}
    {base : List String} (hvalid : manifest.validate = .ok ())
    (hsorted : results.Pairwise fun a b => a.name < b.name)
    (hresults : ∀ o, o ∈ results ↔ Gives manifest document requested o.name o.result)
    (hbase : made.walk (made.start directory) (Disk.components directory) = .ok base)
    (htakes : ∀ name header, Gives manifest document requested name (.ok header) →
      made.Takes (join directory (manifest.fileName name)) (base ++ [manifest.fileName name])) :
    Written manifest document requested directory made
      (made.putAll (headerFiles manifest base results)) := by
  have hall : made.TakesAll (headerFiles manifest base results) := by
    rintro ⟨place, header⟩ hf
    obtain ⟨name, hgives, rfl⟩ := (mem_headerFiles_iff hresults).1 hf
    exact ⟨_, htakes name header hgives⟩
  have hfile : ∀ name header, Gives manifest document requested name (.ok header) →
      (made.putAll (headerFiles manifest base results)).get?
        (base ++ [manifest.fileName name]) = some (.file header) :=
    fun name header hgives => Disk.get?_putAll_of_mem hall (nodup_headerFiles hvalid hsorted base)
      ((mem_headerFiles_iff hresults).2 ⟨name, hgives, rfl⟩)
  refine ⟨fun name header hgives => ?_, fun name name' heq => ?_,
    ⟨base, hbase, fun name header hgives => ⟨?_, hfile name header hgives⟩, fun place hplace => ?_⟩,
    Disk.workingDirectory_putAll⟩
  · exact ((htakes name header hgives).putAll hall).read (hfile name header hgives)
  · exact Manifest.fileName_injective (Manifest.validate_eq_ok_iff.1 hvalid).2.2.1 heq
  · simpa using (htakes name header hgives).above
  · refine Disk.get?_putAll_of_notMem hall fun hmem => ?_
    obtain ⟨⟨_, header⟩, hf, rfl⟩ := List.mem_map.1 hmem
    obtain ⟨name, hgives, heq⟩ := (mem_headerFiles_iff hresults).1 hf
    exact hplace name header hgives heq

theorem Accepted.optionsValid
    (h : Accepted manifestText schemaText requested manifest document) :
    manifest.options.validate = .ok () :=
  (Manifest.validate_eq_ok_iff.1 h.valid).1

theorem Accepted.exists_selected
    (h : Accepted manifestText schemaText requested manifest document) :
    ∃ selected, select document manifest requested = .ok selected :=
  ⟨_, select_eq_ok_iff.2 ⟨fun name hname => ⟨h.known name hname, h.usable name hname⟩, rfl⟩⟩

def Accepts (d : Disk) (schema : String) (manifestPath : Option String) (requested : List String)
    (manifest : Manifest) (document : Document) : Prop :=
  ∃ manifestText schemaText, d.Supplies manifestPath manifestText ∧
    d.read schema = some schemaText ∧
    Accepted manifestText schemaText requested manifest document

theorem Accepts.accepted {d : Disk}
    (h : Accepts d schema manifestPath requested manifest document) :
    ∃ manifestText schemaText, Accepted manifestText schemaText requested manifest document := by
  obtain ⟨manifestText, schemaText, -, -, haccepted⟩ := h
  exact ⟨manifestText, schemaText, haccepted⟩

theorem prepare_eq_ok_iff {d : Disk} {selected : List (String × Module)} :
    d.prepare schema manifestPath requested = .ok (manifest, selected) ↔
      ∃ document, Accepts d schema manifestPath requested manifest document ∧
        select document manifest requested = .ok selected := by
  constructor
  · intro h
    obtain ⟨manifest', hmanifest, h⟩ := bind_eq_ok.1 h
    obtain ⟨⟨⟩, hvalid, h⟩ := bind_eq_ok.1 h
    obtain ⟨document, hdocument, h⟩ := bind_eq_ok.1 h
    obtain ⟨selected', hselect, h⟩ := bind_eq_ok.1 h
    obtain ⟨rfl, rfl⟩ := Prod.mk.inj (Except.ok.inj h)
    obtain ⟨manifestText, hsupplies, hmanifestText⟩ := Disk.exists_of_manifestFor hmanifest
    obtain ⟨schemaText, hread, hschemaText⟩ := Disk.exists_of_documentAt hdocument
    obtain ⟨hnames, -⟩ := select_eq_ok_iff.1 hselect
    exact ⟨document, ⟨manifestText, schemaText, hsupplies, hread, hmanifestText,
      mapError_eq_ok.1 hvalid, hschemaText, fun name hname => (hnames name hname).1,
      fun name hname => (hnames name hname).2⟩, hselect⟩
  · rintro ⟨document, ⟨manifestText, schemaText, hmanifest, hschema, h⟩, hselect⟩
    simp [Disk.prepare, Disk.manifestFor_eq hmanifest, Disk.documentAt_eq hschema,
      h.manifestRead, h.valid, h.schemaRead, hselect]

theorem Accepts.exists_prepared {d : Disk}
    (h : Accepts d schema manifestPath requested manifest document) :
    ∃ selected, select document manifest requested = .ok selected ∧
      manifest.options.validate = .ok () ∧
      d.prepare schema manifestPath requested = .ok (manifest, selected) := by
  obtain ⟨_, _, haccepted⟩ := h.accepted
  obtain ⟨selected, hselect⟩ := haccepted.exists_selected
  exact ⟨selected, hselect, haccepted.optionsValid, prepare_eq_ok_iff.2 ⟨document, h, hselect⟩⟩

/-- What is not accepted stops the command at once, and nothing is printed. -/
theorem generate_rejects (hmanifest : s.disk.Supplies manifestPath manifestText)
    (hschema : s.disk.read schema = some schemaText)
    (h : ¬ ∃ manifest document, Accepted manifestText schemaText requested manifest document) :
    ∃ e, run (generate Disk.host schema output manifestPath requested) s =
      (.error (.failed e), s) := by
  rw [run_generate]
  cases hprepare : s.disk.prepare schema manifestPath requested with
  | error e => exact ⟨e, rfl⟩
  | ok r =>
    obtain ⟨document, ⟨manifestText', schemaText', hmanifest', hschema', haccepted⟩, -⟩ :=
      prepare_eq_ok_iff.1 hprepare
    obtain rfl := hmanifest.unique hmanifest'
    obtain rfl := Option.some.inj (hschema.symm.trans hschema')
    exact absurd ⟨_, document, haccepted⟩ h

section

variable (haccepts : Accepts s.disk schema manifestPath requested manifest document)

include haccepts

/-- A module without an end stops the command before anything is made or written. -/
theorem generate_endless (output : Option String) (h : Endless manifest document requested) :
    ∃ s', run (generate Disk.host schema output manifestPath requested) s = (.error .endless, s') ∧
      s'.disk = s.disk := by
  obtain ⟨selected, hselect, hoptions, hprepare⟩ := haccepts.exists_prepared
  rw [run_generate, hprepare]
  simp only [outcomes_endless hselect hoptions h]
  exact ⟨_, rfl, rfl⟩

/-- Where there is an end, the command goes on to deliver the results of the modules in force. -/
theorem generate_delivers (output : Option String) (h : ¬ Endless manifest document requested) :
    ∃ results s₁,
    results.Pairwise (fun a b : Outcome => a.name < b.name) ∧
    (∀ o, o ∈ results ↔ Gives manifest document requested o.name o.result) ∧
    s₁.disk = s.disk ∧
    run (generate Disk.host schema output manifestPath requested) s =
      run (deliver manifest (output.getD manifest.output.directory) results) s₁ := by
  obtain ⟨selected, hselect, -, hprepare⟩ := haccepts.exists_prepared
  obtain ⟨results, houtcomes⟩ := exists_outcomes hselect h
  obtain ⟨hsorted, hresults⟩ := outcomes_ok hselect houtcomes
  refine ⟨results, announced s schema (output.getD manifest.output.directory) selected, hsorted,
    hresults, rfl, ?_⟩
  rw [run_generate, hprepare]
  simp only [houtcomes]

theorem generate_stops (output : Option String) (hends : ¬ Endless manifest document requested)
    (hfast : manifest.output.failFast = true) (hfails : Fails manifest document requested) :
    ∃ e s', run (generate Disk.host schema output manifestPath requested) s =
      (.error (.failed e), s') ∧ s'.disk = s.disk := by
  obtain ⟨results, s₁, -, hresults, hdisk, hrun⟩ := generate_delivers haccepts output hends
  rw [hrun]
  obtain ⟨e, hstops⟩ := run_deliver_stops hfast
    fun hnone => (failures_eq_nil_iff hresults).1 hnone hfails
  exact ⟨e, s₁, hstops, hdisk⟩

theorem generate_writes {made : Disk} (hends : ¬ Endless manifest document requested)
    (hgo : ¬ (manifest.output.failFast = true ∧ Fails manifest document requested))
    (hmade : s.disk.makeDirectory (output.getD manifest.output.directory) = (made, true))
    (hwritable : ∀ name header, Gives manifest document requested name (.ok header) →
      (made.write? (join (output.getD manifest.output.directory) (manifest.fileName name))
        header).isSome) :
    ∃ result s', run (generate Disk.host schema output manifestPath requested) s = (result, s') ∧
      (¬ Fails manifest document requested → result = .ok ()) ∧
      (Fails manifest document requested → ∃ e, result = .error (.failed e)) ∧
      Written manifest document requested (output.getD manifest.output.directory) made s'.disk := by
  obtain ⟨results, s₁, hsorted, hresults, hdisk, hrun⟩ := generate_delivers haccepts output hends
  obtain ⟨_, _, haccepted⟩ := haccepts.accepted
  obtain ⟨base, hbase⟩ := Disk.makeDirectory_walk hmade
  have htakes : ∀ name header, Gives manifest document requested name (.ok header) →
      made.Takes (join (output.getD manifest.output.directory) (manifest.fileName name))
        (base ++ [manifest.fileName name]) := by
    intro name header hgives
    obtain ⟨written, hwritten⟩ := Option.isSome_iff_exists.1 (hwritable name header hgives)
    obtain ⟨place, hplace, -⟩ := Disk.write?_eq_some_iff.1 hwritten
    have hname := (haccepted.usable name hgives.1).toIsEntryName
    rwa [← hplace.place_eq (Manifest.isEntryName_fileName haccepted.valid hname) hbase]
  have hplaces : ∀ o ∈ results, ∀ header, o.result = .ok header →
      made.Takes (join (output.getD manifest.output.directory) (manifest.fileName o.name))
        (base ++ [manifest.fileName o.name]) :=
    fun o ho header hok => htakes o.name header (hok ▸ (hresults o).1 ho)
  have hfailures := failures_eq_nil_iff hresults
  obtain ⟨s', hdeliver, hafter⟩ := run_deliver (s := s₁)
    (fun hfast => hfailures.2 fun hfails => hgo ⟨hfast, hfails⟩) (hdisk ▸ hmade) hplaces
  refine ⟨_, s', hrun.trans hdeliver, fun hnone => if_pos (hfailures.2 hnone), fun hfails => ?_, ?_⟩
  · exact ⟨_, if_neg fun hnone => hfailures.1 hnone hfails⟩
  · rw [hafter]
    exact written_putAll haccepted.valid hsorted hresults hbase htakes

end

def ordersSchema : String :=
  "\x7b\"modules\":\x7b\"orders\":\x7b\x7d,\"users\":\x7b\"methods\":[\x7b\"name\":\"get\"," ++
    "\"returnType\":\x7b\"type\":\"alias\",\"name\":\"User\"\x7d\x7d]\x7d\x7d\x7d"

def loopsSchema : String :=
  "\x7b\"modules\":\x7b\"loops\":\x7b\"aliases\":\x7b\"A\":\x7b\"type\":\"object\"," ++
    "\"properties\":[\x7b\"name\":\"p\",\"optional\":true,\"type\":" ++
    "\x7b\"type\":\"alias\",\"name\":\"B\"\x7d\x7d]\x7d,\"B\":\x7b\"type\":\"array\"," ++
    "\"elementType\":\x7b\"type\":\"alias\",\"name\":\"B\"\x7d\x7d\x7d,\"methods\":" ++
    "[\x7b\"name\":\"f\",\"returnType\":\x7b\"type\":\"alias\",\"name\":\"A\"\x7d\x7d]\x7d\x7d\x7d"

def ordersDisk : Disk where
  entries := [(["work"], .directory), (["orders.json"], .file ordersSchema),
    (["loops.json"], .file loopsSchema)]
  workingDirectory := ["work"]

def ordersSession : Session where
  disk := ordersDisk

theorem exists_ordersDocument : ∃ document orders users header e,
    Document.ofText? ordersSchema = some document ∧
    document.modules.entries = [("orders", orders), ("users", users)] ∧
    orders.generate {} "orders" = .ok header ∧ users.generate {} "users" = .error (.failed e) := by
  have hresults : (Document.ofText? ordersSchema).map (fun d => d.modules.entries.map fun e =>
      (e.1, match e.2.generate {} e.1 with
        | .ok _ => some true
        | .error (.failed _) => some false
        | .error .endless => none)) =
      some [("orders", some true), ("users", some false)] := by decide +kernel
  obtain ⟨document, hdocument, hresults⟩ := Option.map_eq_some_iff.1 hresults
  match hentries : document.modules.entries with
  | [] | [_] | _ :: _ :: _ :: _ => simp [hentries] at hresults
  | [(a, orders), (b, users)] =>
    simp only [hentries, List.map_cons, List.map_nil, List.cons.injEq, Prod.mk.injEq] at hresults
    obtain ⟨⟨rfl, horders⟩, ⟨rfl, husers⟩, -⟩ := hresults
    split at horders <;> cases horders
    split at husers <;> cases husers
    exact ⟨document, orders, users, _, _, hdocument, hentries, ‹_›, ‹_›⟩

theorem exists_loopsDocument : ∃ document,
    Document.ofText? loopsSchema = some document ∧ document.modules.names = ["loops"] ∧
    Endless {} document [] := by
  have hresults : (Document.ofText? loopsSchema).map (fun d => d.modules.entries.map fun e =>
      (e.1, decide (e.2.generate {} e.1 = .error .endless))) = some [("loops", true)] := by
    decide +kernel
  obtain ⟨document, hdocument, hresults⟩ := Option.map_eq_some_iff.1 hresults
  match hentries : document.modules.entries with
  | [] | _ :: _ :: _ => simp [hentries] at hresults
  | [(name, loops)] =>
    simp only [hentries, List.map_cons, List.map_nil, List.cons.injEq, Prod.mk.injEq,
      decide_eq_true_eq, and_true] at hresults
    obtain ⟨rfl, hloops⟩ := hresults
    have hnames : document.modules.names = ["loops"] := by simp [NameMap.names, hentries]
    refine ⟨document, hdocument, hnames, "loops", ?_, loops, ?_, (generate_endless_iff.1 hloops).2⟩
    · simp [namesInForce, hnames]
    · simp [hentries]

theorem gives_orders {orders users : Module} {header : String} {e : HeaderError}
    (hentries : document.modules.entries = [("orders", orders), ("users", users)])
    (horders : orders.generate {} "orders" = .ok header)
    (husers : users.generate {} "users" = .error (.failed e))
    (hforce : ∀ name, name ∈ namesInForce {} document requested ↔ name ∈ ["orders", "users"])
    (name : String) (result : Except HeaderError String) :
    Gives {} document requested name result ↔
      name = "orders" ∧ result = .ok header ∨ name = "users" ∧ result = .error e := by
  simp only [Gives, hforce, hentries, List.mem_cons, List.not_mem_nil, or_false, Prod.mk.injEq]
  constructor
  · rintro ⟨-, m, ⟨rfl, rfl⟩ | ⟨rfl, rfl⟩, hresult⟩
    · rw [horders] at hresult
      exact .inl ⟨rfl, mapError_eq_ok.1 hresult.symm⟩
    · rw [husers] at hresult
      obtain ⟨e', he', heq⟩ := mapError_eq_error.1 hresult.symm
      exact .inr ⟨rfl, Halt.failed.inj heq ▸ he'⟩
  · rintro (⟨rfl, rfl⟩ | ⟨rfl, rfl⟩)
    · exact ⟨.inl rfl, orders, .inl ⟨rfl, rfl⟩, horders⟩
    · exact ⟨.inr rfl, users, .inr ⟨rfl, rfl⟩, husers⟩

theorem not_endless_orders {orders users : Module} {header : String} {e : HeaderError}
    (hentries : document.modules.entries = [("orders", orders), ("users", users)])
    (horders : orders.generate {} "orders" = .ok header)
    (husers : users.generate {} "users" = .error (.failed e)) :
    ¬ Endless {} document requested := by
  rintro ⟨name, -, m, hm, hends⟩
  have hgenerate : m.generate {} name = .error .endless :=
    generate_endless_iff.2 ⟨by decide +kernel, hends⟩
  simp only [hentries, List.mem_cons, List.not_mem_nil, or_false, Prod.mk.injEq] at hm
  obtain ⟨rfl, rfl⟩ | ⟨rfl, rfl⟩ := hm
  · simp [horders] at hgenerate
  · simp [husers] at hgenerate

theorem accepted_of_names {names : List String}
    (hdocument : Document.ofText? schemaText = some document)
    (hnames : document.modules.names = names) (husable : ∀ name ∈ names, UsableName name)
    (hforce : ∀ name ∈ namesInForce {} document requested, name ∈ names) :
    Accepted none schemaText requested {} document :=
  ⟨rfl, by decide +kernel, hdocument, fun name hname => hnames ▸ hforce name hname,
    fun name hname => husable name (hforce name hname)⟩

end

end Command

end SchemaStructs
