import SchemaStructs.Command.Disk
import SchemaStructs.Proofs.Lookup
import SchemaStructs.Proofs.Manifest

set_option autoImplicit false

namespace SchemaStructs

namespace Disk

variable {d d' : Disk}

section

variable {names place : List String} {e : Entry} {es : List (List String × Entry)}

theorem lookup_replace_self (h : (es.lookup names).isSome) :
    (es.map fun old => if old.1 == names then (names, e) else old).lookup names = some e := by
  induction es with
  | nil => cases h
  | cons old es ih =>
    obtain ⟨key, entry⟩ := old
    rw [List.map_cons]
    by_cases hkey : key = names
    · rw [if_pos (by simpa using hkey), List.lookup_cons_self]
    · rw [lookup_cons_ne (Ne.symm hkey)] at h
      rw [if_neg (by simpa using hkey), lookup_cons_ne (Ne.symm hkey), ih h]

theorem lookup_replace_ne (h : place ≠ names) :
    (es.map fun old => if old.1 == names then (names, e) else old).lookup place =
      es.lookup place := by
  induction es with
  | nil => rfl
  | cons old es ih =>
    obtain ⟨key, entry⟩ := old
    rw [List.map_cons]
    by_cases hkey : key = names
    · subst hkey
      rw [if_pos (beq_self_eq_true key), lookup_cons_ne h, lookup_cons_ne h, ih]
    · rw [if_neg (by simpa using hkey), List.lookup_cons, List.lookup_cons, ih]

theorem get?_put (hnames : names ≠ []) (e : Entry) (place : List String) :
    (d.put names e).get? place = if place = names then some e else d.get? place := by
  cases place with
  | nil => simp [get?, hnames.symm]
  | cons name rest =>
    simp only [get?, List.isEmpty_cons, Bool.false_eq_true, if_false, put]
    by_cases hplace : name :: rest = names
    · subst hplace
      split
      · next hold => rw [lookup_replace_self hold, if_pos rfl]
      · next hnew =>
        rw [Option.not_isSome_iff_eq_none] at hnew
        rw [List.lookup_append, hnew, List.lookup_cons_self, if_pos rfl, Option.none_or]
    · rw [if_neg hplace]
      split
      · exact lookup_replace_ne hplace
      · rw [List.lookup_append, lookup_cons_ne hplace, List.lookup_nil, Option.or_none]

end

section

def enter (d : Disk) (here : List String) (name : String) : Except Obstacle (List String) :=
  match d.get? here with
  | none => .error .missing
  | some (.file _) => .error .blocked
  | some .directory =>
    if name == "." then .ok here
    else if name == ".." then .ok here.dropLast
    else if maxNameBytes < name.utf8ByteSize then .error .blocked
    else .ok (here ++ [name])

@[simp] theorem walk_cons (here names : List String) (name : String) :
    d.walk here (name :: names) = d.enter here name >>= fun there => d.walk there names := by
  cases hhere : d.get? here with
  | none => simp only [walk, enter, hhere]; rfl
  | some e =>
    cases e with
    | file text => simp only [walk, enter, hhere]; rfl
    | directory =>
      simp only [walk, enter, hhere]
      split_ifs <;> rfl

@[simp] theorem walk_append (here xs ys : List String) :
    d.walk here (xs ++ ys) = d.walk here xs >>= fun there => d.walk there ys := by
  induction xs generalizing here with
  | nil => rfl
  | cons name xs ih =>
    rw [List.cons_append, walk_cons, walk_cons]
    cases d.enter here name with
    | error o => rfl
    | ok there => exact ih there

theorem directory_of_enter {here there : List String} {name : String}
    (h : d.enter here name = .ok there) : d.get? here = some .directory := by
  unfold enter at h
  split at h
  · cases h
  · cases h
  · assumption

def KeepsDirectories (d d' : Disk) : Prop :=
  ∀ place, d.get? place = some .directory → d'.get? place = some .directory

theorem KeepsDirectories.walk (h : KeepsDirectories d d') {here place names : List String}
    (hwalk : d.walk here names = .ok place) : d'.walk here names = .ok place := by
  induction names generalizing here with
  | nil => exact hwalk
  | cons name names ih =>
    rw [walk_cons] at hwalk ⊢
    obtain ⟨there, henter, hwalk⟩ := bind_eq_ok.1 hwalk
    have hhere := directory_of_enter henter
    have henter' : d'.enter here name = .ok there := by
      rw [← henter, enter, enter, h here hhere, hhere]
    rw [henter', ok_bind]
    exact ih hwalk

theorem walk_entry {here place : List String} {name : String} (hname : IsEntryName name)
    (h : d.walk here [name] = .ok place) : place = here ++ [name] := by
  rw [walk_cons] at h
  obtain ⟨there, henter, hwalk⟩ := bind_eq_ok.1 h
  rw [enter, directory_of_enter henter] at henter
  simp only [beq_iff_eq, hname.notDot, hname.notDots, if_false] at henter
  split at henter
  · cases henter
  · rw [← Except.ok.inj hwalk, ← Except.ok.inj henter]

end

section

theorem pieces_of_noSlash {s : String} (h : '/' ∉ s.toList) : pieces "/" s = [s] := by
  change (piecesFrom ['/'] 0 s.toList).map String.ofList = [s]
  rw [piecesFrom_of_notMem h, List.map_singleton, String.ofList_toList]

@[simp] theorem pieces_append_slash (s t : String) :
    pieces "/" (s ++ "/" ++ t) = pieces "/" s ++ pieces "/" t := by
  have hchars : (s ++ "/" ++ t).toList = s.toList ++ '/' :: t.toList := by
    simp [String.toList_append]
  change (piecesFrom ['/'] 0 (s ++ "/" ++ t).toList).map String.ofList =
    (piecesFrom ['/'] 0 s.toList).map String.ofList ++
      (piecesFrom ['/'] 0 t.toList).map String.ofList
  rw [hchars, piecesFrom_append, List.map_append]

def components (path : String) : List String := (pieces "/" path).filter (!·.isEmpty)

theorem components_entry {name : String} (hname : IsEntryName name) : components name = [name] := by
  rw [components, pieces_of_noSlash hname.noSlash]
  simpa using hname.nonempty

@[simp] theorem components_append_slash (s t : String) :
    components (s ++ "/" ++ t) = components s ++ components t := by
  simp [components]

theorem components_join {directory name : String} (hname : IsEntryName name) :
    components (join directory name) = components directory ++ [name] := by
  unfold join
  by_cases hempty : directory = ""
  · subst hempty
    exact components_entry hname
  · by_cases hslash : directory.toList.getLast? = some '/'
    · obtain ⟨cs, hcs⟩ := List.getLast?_eq_some_iff.1 hslash
      obtain rfl : directory = String.ofList cs ++ "/" := by
        rw [← String.toList_inj, hcs, String.toList_append, String.toList_ofList]
        rfl
      have hdirectory := components_append_slash (String.ofList cs) ""
      have hempty : components "" = [] := by decide
      rw [String.append_empty, hempty, List.append_nil] at hdirectory
      rw [if_pos (by rw [hslash]; simp), components_append_slash, components_entry hname,
        hdirectory]
    · rw [if_neg (by simp [hslash, hempty]), components_append_slash, components_entry hname]

/-- The names in the path of a directory's entry are those of the directory, then the entry's. -/
theorem namesOf_join {directory name : String} (hname : IsEntryName name) :
    namesOf (join directory name) = components directory ++ [name] := by
  have hlast : (join directory name).toList.getLast? ≠ some '/' := by
    have hchars : name.toList ≠ [] := by simpa using hname.nonempty
    obtain ⟨start, hstart⟩ : ∃ start, join directory name = start ++ name := by
      unfold join
      split
      · exact ⟨_, rfl⟩
      · exact ⟨_, rfl⟩
    rw [hstart, String.toList_append, List.getLast?_append_of_ne_nil _ hchars]
    exact fun h => hname.noSlash (List.mem_of_getLast? h)
  rw [namesOf, if_neg (by simpa using hlast)]
  exact components_join hname

end

@[simp] theorem start_put (names : List String) (e : Entry) (path : String) :
    (d.put names e).start path = d.start path := rfl

theorem start_join {directory name : String} (hname : IsEntryName name) :
    d.start (join directory name) = d.start directory := by
  have hhead : (join directory name).toList.head? = some '/' ↔
      directory.toList.head? = some '/' := by
    by_cases hempty : directory = ""
    · have hslash : name.toList.head? ≠ some '/' := fun h => hname.noSlash (List.mem_of_head? h)
      simp [join, hempty, hslash]
    · obtain ⟨c, cs, hchars⟩ := List.exists_cons_of_ne_nil (l := directory.toList) (by simpa)
      unfold join
      split <;> simp [String.toList_append, hchars]
  simp only [start, beq_iff_eq, hhead]

theorem locate_eq_ok_iff {path : String} {place : List String} :
    d.locate path = .ok place ↔
      isPath path = true ∧ d.walk (d.start path) (namesOf path) = .ok place := by
  unfold locate
  split <;> simp [*]

structure Takes (d : Disk) (path : String) (place : List String) : Prop where
  locate : d.locate path = .ok place
  free : d.get? place ≠ some .directory
  above : d.get? place.dropLast = some .directory

theorem write?_eq_some_iff {path text : String} : d.write? path text = some d' ↔
    ∃ place, d.Takes path place ∧ d' = d.put place (.file text) := by
  constructor
  · intro h
    unfold write? at h
    split at h
    · next place hplace =>
      split at h
      · cases h
      · next habove hfree => exact ⟨place, ⟨hplace, hfree, habove⟩, (Option.some.inj h).symm⟩
      · cases h
    · cases h
  · rintro ⟨place, ⟨hplace, hfree, habove⟩, rfl⟩
    simp only [write?, hplace, habove]

theorem KeepsDirectories.locate (h : KeepsDirectories d d')
    (hhere : d'.workingDirectory = d.workingDirectory) {path : String} {place : List String}
    (hplace : d.locate path = .ok place) : d'.locate path = .ok place := by
  obtain ⟨hpath, hwalk⟩ := locate_eq_ok_iff.1 hplace
  refine locate_eq_ok_iff.2 ⟨hpath, h.walk ?_⟩
  rwa [start, hhere]

namespace Takes

variable {path path' : String} {place place' : List String}

theorem nonempty (h : d.Takes path place) : place ≠ [] := by
  rintro rfl
  exact h.free rfl

theorem get?_put (h : d.Takes path place) (text : String) (p : List String) :
    (d.put place (.file text)).get? p = if p = place then some (.file text) else d.get? p :=
  Disk.get?_put h.nonempty _ p

theorem keeps (h : d.Takes path place) (text : String) :
    KeepsDirectories d (d.put place (.file text)) := by
  intro p hp
  rw [h.get?_put]
  split
  · next heq => exact absurd (heq ▸ hp) h.free
  · exact hp

/-- In a directory that the path leads to, a file's place is under its name. -/
theorem place_eq {directory name : String} {base : List String} (hname : IsEntryName name)
    (hbase : d.walk (d.start directory) (components directory) = .ok base)
    (h : d.Takes (join directory name) place) : place = base ++ [name] := by
  obtain ⟨-, hwalk⟩ := locate_eq_ok_iff.1 h.locate
  rw [start_join hname, namesOf_join hname, walk_append, hbase, ok_bind] at hwalk
  exact walk_entry hname hwalk

theorem put (h : d.Takes path place) (h' : d.Takes path' place') (text : String) :
    (d.put place' (.file text)).Takes path place where
  locate := (h'.keeps text).locate rfl h.locate
  free := by
    rw [h'.get?_put]
    split
    · simp
    · exact h.free
  above := h'.keeps text _ h.above

/-- A place that is there once a file is written was there before. -/
theorem of_put {text : String} (h : (d.put place' (.file text)).Takes path place)
    (h' : d.Takes path' place') : d.Takes path place := by
  have hback : KeepsDirectories (d.put place' (.file text)) d := by
    intro p hp
    rw [h'.get?_put] at hp
    split at hp
    · cases hp
    · exact hp
  exact ⟨hback.locate rfl h.locate, fun hdirectory => h.free (h'.keeps text _ hdirectory),
    hback _ h.above⟩

theorem read (h : d.Takes path place) {text : String} (hfile : d.get? place = some (.file text)) :
    d.read path = some text := by
  simp only [Disk.read, find?, h.locate, hfile]

end Takes

section

variable {files : List (List String × String)} {path : String} {place : List String}

def putAll (d : Disk) (files : List (List String × String)) : Disk :=
  files.foldl (fun d f => d.put f.1 (.file f.2)) d

@[simp] theorem workingDirectory_putAll :
    (d.putAll files).workingDirectory = d.workingDirectory := by
  induction files generalizing d with
  | nil => rfl
  | cons f files ih => exact ih

def TakesAll (d : Disk) (files : List (List String × String)) : Prop :=
  ∀ f ∈ files, ∃ path, d.Takes path f.1

theorem TakesAll.next {f : List String × String} (h : d.TakesAll (f :: files)) :
    (∃ path, d.Takes path f.1) ∧ (d.put f.1 (.file f.2)).TakesAll files := by
  obtain ⟨⟨path, hpath⟩, hrest⟩ := List.forall_mem_cons.1 h
  exact ⟨⟨path, hpath⟩, fun g hg => (hrest g hg).imp fun _ hg => hg.put hpath f.2⟩

theorem Takes.putAll (h : d.Takes path place) (hfiles : d.TakesAll files) :
    (d.putAll files).Takes path place := by
  induction files generalizing d with
  | nil => exact h
  | cons f files ih =>
    obtain ⟨⟨p, hp⟩, hrest⟩ := hfiles.next
    exact ih (h.put hp f.2) hrest

theorem get?_putAll_of_notMem (hfiles : d.TakesAll files) (h : place ∉ files.map (·.1)) :
    (d.putAll files).get? place = d.get? place := by
  induction files generalizing d with
  | nil => rfl
  | cons f files ih =>
    obtain ⟨⟨p, hp⟩, hrest⟩ := hfiles.next
    rw [List.map_cons, List.mem_cons, not_or] at h
    rw [Disk.putAll, List.foldl_cons]
    exact (ih hrest h.2).trans ((hp.get?_put f.2 place).trans (if_neg h.1))

theorem get?_putAll_of_mem (hfiles : d.TakesAll files) (hplaces : (files.map (·.1)).Nodup)
    {text : String} (h : (place, text) ∈ files) :
    (d.putAll files).get? place = some (.file text) := by
  induction files generalizing d with
  | nil => cases h
  | cons f files ih =>
    obtain ⟨⟨p, hp⟩, hrest⟩ := hfiles.next
    obtain ⟨hfresh, hplaces⟩ := List.nodup_cons.1 hplaces
    rw [Disk.putAll, List.foldl_cons]
    rcases List.mem_cons.1 h with rfl | h
    · exact (get?_putAll_of_notMem hrest hfresh).trans
        ((hp.get?_put text place).trans (if_pos rfl))
    · exact ih hrest hplaces h

end

section

structure Grows (d d' : Disk) : Prop where
  entries : ∀ place, d'.get? place = d.get? place ∨
    d.get? place = none ∧ d'.get? place = some .directory
  workingDirectory : d'.workingDirectory = d.workingDirectory

theorem Grows.refl (d : Disk) : d.Grows d := ⟨fun _ => .inl rfl, rfl⟩

theorem Grows.trans {d'' : Disk} (h : d.Grows d') (h' : d'.Grows d'') : d.Grows d'' := by
  refine ⟨fun place => ?_, h'.workingDirectory.trans h.workingDirectory⟩
  rcases h'.entries place with heq' | ⟨hnone, hnew⟩
  · rw [heq']
    exact h.entries place
  · rcases h.entries place with heq | ⟨-, hold⟩
    · exact .inr ⟨heq ▸ hnone, hnew⟩
    · simp [hold] at hnone

theorem Grows.keeps (h : d.Grows d') : KeepsDirectories d d' := by
  intro place hplace
  rcases h.entries place with heq | ⟨hnone, -⟩
  · rw [heq, hplace]
  · simp [hplace] at hnone

theorem Grows.start (h : d.Grows d') (path : String) : d'.start path = d.start path := by
  rw [Disk.start, Disk.start, h.workingDirectory]

section

variable {here names : List String}

theorem makeOne_ok (h : d.makeOne here names = .ok d') :
    d.Grows d' ∧ d'.isDirectory here names = true := by
  unfold makeOne at h
  split at h
  · cases h
  · next place hwalk =>
    split at h
    · cases h
    · next habsent _ =>
      obtain rfl := Except.ok.inj h
      have hplace : place ≠ [] := by
        rintro rfl
        cases habsent
      have hgrows : d.Grows (d.put place .directory) := by
        refine ⟨fun p => ?_, rfl⟩
        rw [get?_put hplace]
        split
        · next heq => exact .inr ⟨heq ▸ habsent, rfl⟩
        · exact .inl rfl
      refine ⟨hgrows, ?_⟩
      rw [isDirectory, hgrows.keeps.walk hwalk]
      simp [get?_put hplace]
    · cases h
    · cases h

theorem makeWith_grows {above : Disk → Disk × Bool} (h : ∀ d : Disk, d.Grows (above d).1)
    (d : Disk) (here names : List String) : d.Grows (makeWith above d here names).1 := by
  unfold makeWith
  split
  · next hmade => exact (makeOne_ok hmade).1
  · exact Grows.refl d
  · have habove := h d
    split
    · next heq => exact heq ▸ habove
    · next heq =>
      rw [heq] at habove
      split
      · next hmade => exact habove.trans (makeOne_ok hmade).1
      · exact habove

theorem makeAll_grows (here names : List String) (d : Disk) : d.Grows (makeAll here names d).1 := by
  induction names generalizing d with
  | nil => exact Grows.refl d
  | cons name names ih => exact makeWith_grows ih d _ _

theorem makeDirectory_grows (d : Disk) (path : String) : d.Grows (d.makeDirectory path).1 := by
  unfold makeDirectory
  split
  · exact Grows.refl d
  · split
    · exact makeWith_grows (makeAll_grows _ _) d _ _
    · exact Grows.refl d

theorem makeWith_isDirectory {above : Disk → Disk × Bool}
    (h : makeWith above d here names = (d', true)) : d'.isDirectory here names = true := by
  unfold makeWith at h
  split at h
  · next hmade =>
    obtain rfl := (Prod.mk.inj h).1
    exact (makeOne_ok hmade).2
  · obtain ⟨rfl, hthere⟩ := Prod.mk.inj h
    exact hthere
  · split at h
    · cases h
    · split at h
      · next hmade =>
        obtain rfl := (Prod.mk.inj h).1
        exact (makeOne_ok hmade).2
      · obtain ⟨rfl, hthere⟩ := Prod.mk.inj h
        exact hthere

end

theorem makeDirectory_walk {path : String} (h : d.makeDirectory path = (d', true)) :
    ∃ base, d'.walk (d'.start path) (components path) = .ok base := by
  have hgrows := makeDirectory_grows d path
  rw [h] at hgrows
  unfold makeDirectory at h
  split at h
  · next hempty =>
    obtain rfl : path = "" := by simpa using hempty
    exact ⟨_, rfl⟩
  · split at h
    · have hthere := makeWith_isDirectory h
      rw [hgrows.start]
      unfold isDirectory at hthere
      split at hthere
      · next base hwalk => exact ⟨base, hwalk⟩
      · cases hthere
    · cases h

end

end Disk

end SchemaStructs
