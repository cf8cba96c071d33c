import Mathlib.Tactic
import SqlRoutine.File.Conversion
import SqlRoutine.Proofs.File.Disk
import SqlRoutine.Proofs.File.Encoding
import SqlRoutine.Proofs.Script.Segments

/-! # A file is converted like its text

**However a file holds a text, its conversion writes what the conversion of the text gives**
(`convert_stored`), provided that the output can be written and is not the input. The bytes decode to
the text with its line ends (`Encoding.decode_bytes`), which reading unifies
(`Text.unifyLineEnds_withLineEnds`); emptying the output and creating its directory do not touch the
input. -/

namespace SqlRoutine.FileConversion

open Script
open Encoding (Storage)

variable {c : Converter} {disk ready : Disk} {input output : Text} {place : List Text} {bytes : Bytes}
  {t : Text}

/-- The disk with the directory of the output, which is there or is created. -/
def prepared (disk : Disk) (output : Text) : Except Fault Disk :=
  let directory := (Path.absolute disk.workingDirectory output).dropLast
  if disk.node? directory = some .directory then .ok disk else disk.makeDirectories directory

theorem prepared_keeps (h : prepared disk output = .ok ready) :
    ready.workingDirectory = disk.workingDirectory ∧
      ∀ place node, disk.node? place = some node → ready.node? place = some node := by
  unfold prepared at h
  dsimp only at h
  split_ifs at h
  · cases h
    exact ⟨rfl, fun _ _ hnode => hnode⟩
  · exact Disk.makeBelow_keeps h

theorem withDirectory_of_prepared (c : Converter) (input : Text)
    (h : prepared disk output = .ok ready) :
    ∃ notes, withDirectory c disk input output = convertExisting c ready notes input output := by
  unfold prepared at h
  unfold withDirectory
  dsimp only at h ⊢
  split_ifs at h ⊢
  · cases h
    exact ⟨_, rfl⟩
  · rw [h]
    exact ⟨_, rfl⟩

/-- **A file is a source like the text that it holds.** -/
theorem source_stored (storage : Storage) (lineEnd : Text.LineEnd) (hreturn : '\r' ∉ t)
    (hmark : t.head? ≠ some '\uFEFF') {bytes : Bytes}
    (hbytes : bytes = storage.bytes (t.withLineEnds lineEnd)) :
    source ((Encoding.announced bytes).decode bytes) = Source.ofText t := by
  rw [hbytes, Encoding.decode_bytes storage (Text.head?_withLineEnds lineEnd hmark), source,
    Text.unifyLineEnds_withLineEnds lineEnd hreturn]

/-- The conversion into a place, from bytes that are a source like a text. -/
theorem convertBytes_of_source (notes : List Note) {encoding : Encoding}
    (hread : (disk.put place (.file [])).read input = .ok bytes)
    (hsource : source (encoding.decode bytes) = Source.ofText t)
    (hfault : (convertText c {} t).fault = none) :
    let p := convertText c {} t
    let o := convertBytes c disk notes encoding input place
    o.succeeded ∧
      o.disk = (disk.put place (.file [])).put place (.file (Encoding.encodeUtf8 p.state.output)) ∧
      o.written = p.state.written ∧ o.skipped = p.state.skipped := by
  simp only [convertBytes, hread, hsource]
  rw [← convertText, hfault]
  exact ⟨rfl, rfl, rfl, rfl⟩

/-- The conversion of a file that is there, into a place at which it is not. -/
theorem convertExisting_of_source (notes : List Note) {source' : List Text}
    (hinput : disk.locate input = .ok source') (hnode : disk.node? source' = some (.file bytes))
    (hsource : source ((Encoding.announced bytes).decode bytes) = Source.ofText t)
    (houtput : disk.writable output = .ok place) (hne : source' ≠ place)
    (hfault : (convertText c {} t).fault = none) :
    let p := convertText c {} t
    let o := convertExisting c disk notes input output
    o.succeeded ∧ o.disk.read output = .ok (Encoding.encodeUtf8 p.state.output) ∧
      o.written = p.state.written ∧ o.skipped = p.state.skipped := by
  obtain ⟨hplace, hfree⟩ := Disk.locate_of_writable houtput
  have hroot : place ≠ [] := Disk.ne_nil_of_node? hfree
  -- the input is elsewhere, so it is still there when the output has been emptied
  have hkept : Disk.Keeps disk (disk.put place (.file [])) := Disk.keeps_put hfree _
  have hemptied : (disk.put place (.file [])).read input = .ok bytes := by
    refine Disk.read_of_locate (hkept.locate hinput) ?_
    rw [Disk.node?_put_of_ne disk hne, hnode]
  simp only [convertExisting, Disk.read_of_locate hinput hnode, houtput]
  obtain ⟨hsucceeded, hdisk, hcounts⟩ := convertBytes_of_source
    (notes ++ [.log .info ("Reading ".toList ++ input), .log .info ("Creating ".toList ++ output)])
    hemptied hsource hfault
  refine ⟨hsucceeded, ?_, hcounts⟩
  rw [hdisk]
  have hemptyNode : (disk.put place (.file [])).node? place ≠ some .directory := by
    rw [Disk.node?_put_self disk hroot]
    simp
  exact Disk.read_of_locate ((hkept.trans (Disk.keeps_put hemptyNode _)).locate hplace)
    (Disk.node?_put_self _ hroot _)

theorem convert_of_exists (config : Configuration) (hexists : disk.exists? input)
    (hinput : input ≠ []) (houtput : output ≠ []) :
    convert c config disk (some input) (some output) = withDirectory c disk input output := by
  obtain ⟨i, is, rfl⟩ := List.exists_cons_of_ne_nil hinput
  obtain ⟨o, os, rfl⟩ := List.exists_cons_of_ne_nil houtput
  simp only [convert, given?, Option.map_some, Option.getD_some, inputExists, hexists, Value.display]

/-- **A file is converted like the text that it holds**: the conversion succeeds, the output file holds
the converted text in UTF-8, and as many routines were written and skipped. The input file is written
at `source` in any of the supported ways; the output file can then be written at another place, in a
directory that is there or can be created. -/
theorem convert_stored (c : Converter) (config : Configuration) (storage : Storage)
    (lineEnd : Text.LineEnd) (t converted : Text) (disk written ready : Disk) (input output : Text)
    (source place : List Text) (hreturn : '\r' ∉ t) (hmark : t.head? ≠ some '\uFEFF')
    (htext : (Script.convertText c {} t).result = .ok converted)
    (hinput : disk.writable input = .ok source)
    (hwritten : written = disk.put source (.file (storage.bytes (t.withLineEnds lineEnd))))
    (hready : prepared written output = .ok ready) (houtput : ready.writable output = .ok place)
    (hne : source ≠ place) :
    let o := convert c config written (some input) (some output)
    o.succeeded = true ∧ o.disk.read output = .ok (Encoding.encodeUtf8 converted) ∧
      o.written = (Script.convertText c {} t).state.written ∧
      o.skipped = (Script.convertText c {} t).state.skipped := by
  obtain ⟨hlocated, hfree⟩ := Disk.locate_of_writable hinput
  have hnode : written.node? source = some (.file (storage.bytes (t.withLineEnds lineEnd))) := by
    rw [hwritten, Disk.node?_put_self disk (Disk.ne_nil_of_node? hfree)]
  have hthere : written.locate input = .ok source := by
    rw [hwritten]
    exact (Disk.keeps_put hfree _).locate hlocated
  obtain ⟨hworking, hnodes⟩ := prepared_keeps hready
  have hkept : Disk.Keeps written ready := ⟨hworking, fun at' => hnodes at' .directory⟩
  obtain ⟨notes, hnotes⟩ := withDirectory_of_prepared c input hready
  obtain ⟨hfault, hconverted⟩ := Script.Progress.result_eq_ok_iff.1 htext
  dsimp only
  rw [convert_of_exists config (Disk.exists?_of_locate hthere hnode)
    (Disk.path_ne_nil_of_locate hlocated)
    (Disk.path_ne_nil_of_locate (Disk.locate_of_writable houtput).1), hnotes, ← hconverted]
  exact convertExisting_of_source notes (hkept.locate hthere) (hnodes source _ hnode)
    (source_stored storage lineEnd hreturn hmark rfl) houtput hne hfault

/-- A script with a character beyond the first 65536, in UTF-16 with carriage returns, is converted into
a directory that has to be created. -/
theorem convert_stored_utf16_newDirectory :
    let c : Converter := { profile := .standard, renames := none, today := ⟨2024, 5, 1⟩ }
    let t := "Create Procedure dbo.First\nAs\nPrint '😀'\n".toList
    let bytes := (Storage.marked .utf16be).bytes (Text.withLineEnds .returnFeed t)
    let written : Disk := ⟨["work".toList], [(["work".toList, "in.sql".toList], .file bytes),
      (["work".toList], .directory)]⟩
    let o := convert c ⟨[], none⟩ written (some "in.sql".toList) (some "new/out.sql".toList)
    o.succeeded = true ∧ o.disk.read "new/out.sql".toList =
      .ok (Encoding.encodeUtf8 (Script.convertText c {} t).state.output) ∧ o.written = 1 := by
  intro c t bytes written o
  have hconverted : (Script.convertText c {} t).fault.isNone = true ∧
      (Script.convertText c {} t).state.written = 1 := by decide +kernel
  obtain ⟨hsucceeded, hread, hcount, -⟩ := convert_stored c ⟨[], none⟩ (.marked .utf16be) .returnFeed t _
    ⟨["work".toList], [(["work".toList], .directory)]⟩ written
    (written.put ["work".toList, "new".toList] .directory) "in.sql".toList "new/out.sql".toList
    ["work".toList, "in.sql".toList] ["work".toList, "new".toList, "out.sql".toList]
    (by decide) (by decide) (Script.Progress.result_eq_ok_iff.mpr
      ⟨Option.isNone_iff_eq_none.mp hconverted.1, rfl⟩) (by decide) rfl rfl
    (by decide) (by decide)
  exact ⟨hsucceeded, hread, hcount.trans hconverted.2⟩

end SqlRoutine.FileConversion
