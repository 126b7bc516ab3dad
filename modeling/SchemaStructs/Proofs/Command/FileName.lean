import SchemaStructs.Proofs.Command.Disk
import SchemaStructs.Proofs.Command.Select

set_option autoImplicit false

namespace SchemaStructs

variable {manifest : Manifest}

theorem noBackslash_fileName (hvalid : manifest.validate = .ok ()) {name : String}
    (hname : UsableName name) : '\\' ∉ (manifest.fileName name).toList :=
  fun hc => hname.noBackslash (Manifest.separator_fileName hvalid hc (by decide))

theorem usableName_of_select {document : Document} {requested : List String}
    {selected : List (String × Module)}
    (hselect : select document manifest requested = .ok selected) :
    ∀ e ∈ selected, UsableName e.1 := by
  obtain ⟨hnames, rfl⟩ := select_eq_ok_iff.1 hselect
  exact fun e he => (hnames e.1 (mem_entriesInForce.1 he).2).2

/-- Under a valid manifest different modules have different files, and the file of a module that is
selected stands in the output directory itself: its name is one component of a path, and neither
the directory nor the one above. -/
theorem fileNames_apart_inside (hvalid : manifest.validate = .ok ()) :
    Function.Injective manifest.fileName ∧
    ∀ document requested selected, select document manifest requested = .ok selected →
      ∀ e ∈ selected, IsEntryName (manifest.fileName e.1) ∧
        '\\' ∉ (manifest.fileName e.1).toList ∧
        ∀ directory, Disk.namesOf (join directory (manifest.fileName e.1)) =
          Disk.components directory ++ [manifest.fileName e.1] := by
  obtain ⟨-, -, hholds, -, -⟩ := Manifest.validate_eq_ok_iff.1 hvalid
  refine ⟨Manifest.fileName_injective hholds, fun document requested selected hselect e he => ?_⟩
  have hname := usableName_of_select hselect e he
  have hentry := Manifest.isEntryName_fileName hvalid hname.toIsEntryName
  exact ⟨hentry, noBackslash_fileName hvalid hname, fun directory => Disk.namesOf_join hentry⟩

def bracesManifest : Manifest :=
  { output := { filePattern := "\x7bmodule\x7d.\x7bmodule\x7d" } }

def bracesDocument : Document := ⟨.ofList [("\x7bmodule\x7d", {}), ("module\x7d", {})]⟩

theorem fileNames_apart_inside_braces :
    bracesManifest.validate = .ok () ∧
    (∃ selected, select bracesDocument bracesManifest [] = .ok selected ∧
      ∃ e ∈ selected, e.1 = "\x7bmodule\x7d") ∧
    bracesManifest.fileName "\x7bmodule\x7d" ≠ bracesManifest.fileName "module\x7d" ∧
    IsEntryName "\x7bmodule\x7d.\x7bmodule\x7d" ∧
    Disk.namesOf (join "out/" "\x7bmodule\x7d.\x7bmodule\x7d") =
      ["out", "\x7bmodule\x7d.\x7bmodule\x7d"] := by
  have hvalid : bracesManifest.validate = .ok () := by decide +kernel
  have hname : bracesManifest.fileName "\x7bmodule\x7d" = "\x7bmodule\x7d.\x7bmodule\x7d" := by
    decide +kernel
  have husable : ∀ name ∈ ["module\x7d", "\x7bmodule\x7d"], UsableName name := by decide
  have hselect : select bracesDocument bracesManifest [] =
      .ok (entriesInForce bracesManifest bracesDocument []) :=
    select_eq_ok_iff.2 ⟨fun name hmem => ⟨hmem, husable name hmem⟩, rfl⟩
  have hmem : ("\x7bmodule\x7d", {}) ∈ entriesInForce bracesManifest bracesDocument [] :=
    mem_entriesInForce.2 ⟨List.mem_cons_of_mem _ List.mem_cons_self,
      List.mem_cons_of_mem _ List.mem_cons_self⟩
  obtain ⟨hinjective, hinside⟩ := fileNames_apart_inside hvalid
  obtain ⟨hentry, -, hplace⟩ := hinside _ _ _ hselect _ hmem
  refine ⟨hvalid, ⟨_, hselect, _, hmem, rfl⟩, hinjective.ne (by decide), hname ▸ hentry, ?_⟩
  exact hname ▸ hplace "out/"

end SchemaStructs
