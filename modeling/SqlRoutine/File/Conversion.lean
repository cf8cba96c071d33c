import SqlRoutine.File.Disk
import SqlRoutine.Setting.Configuration

/-! # The conversion of a file

The input file is read line by line and the output file is written in UTF-8. The output is emptied
before the input is read, and what has been written before a failure stays. -/

namespace SqlRoutine

/-- The messages about a conversion that has failed. -/
def Note.failure (message : Text) : List Note :=
  [.log .error message, .log .error "<traceback>".toList]

namespace FileConversion

/-- The lines of the text that have an end. -/
def endedLines (t : Text) : Text := t.uptoLast '\n'

/-- **The source of a file.** If the last character is cut off, the lines with an end are delivered
first; a carriage return at the very end is none yet. -/
def source : Encoding.Decoded → Script.Source
  | .complete t => Script.Source.ofText (Text.unifyLineEnds t)
  | .invalid fault => ⟨[], some fault⟩
  | .cut t fault =>
    let t : Text := if t.endsWith ['\r'] then t.dropLast else t
    { Script.Source.ofText (endedLines (Text.unifyLineEnds t)) with fault := some fault }

/-- What comes of the conversion of a file. -/
structure Outcome where
  succeeded : Bool
  disk : Disk
  written : Nat
  skipped : Nat
  notes : List Note

/-- A conversion that has failed, with what had been written by then. -/
def failed (disk : Disk) (written skipped : Nat) (notes : List Note) (fault : Fault) : Outcome :=
  ⟨false, disk, written, skipped,
    notes ++ Note.failure ("Error in convert_file: ".toList ++ fault.message)⟩

/-- Converts a file whose encoding is known. The output file is emptied first. -/
def convertBytes (c : Converter) (disk : Disk) (notes : List Note) (encoding : Encoding)
    (input : Text) (place : List Text) : Outcome :=
  let disk := disk.put place (.file [])
  match disk.read input with
  | .error e => failed disk 0 0 notes (.refused e input)
  | .ok bytes =>
    let ⟨s, fault⟩ := Script.convert c {} (source (encoding.decode bytes))
    let disk := disk.put place (.file (Encoding.encodeUtf8 s.output))
    let notes := notes ++ s.notes
    match fault with
    | some fault => failed disk s.written s.skipped notes fault
    | none =>
      ⟨true, disk, s.written, s.skipped, notes ++ [.log .info ("Converted ".toList ++
        Text.ofNat s.written ++ " procedures/functions; skipped ".toList ++
        Text.ofNat s.skipped)]⟩

/-- Converts a file into an existing directory. -/
def convertExisting (c : Converter) (disk : Disk) (notes : List Note) (input output : Text) :
    Outcome :=
  let notes := notes ++ [.log .info ("Reading ".toList ++ input),
    .log .info ("Creating ".toList ++ output)]
  match disk.read input with
  | .error e => failed disk 0 0 notes (.refused e input)
  | .ok bytes =>
    match disk.writable output with
    | .error e => failed disk 0 0 notes (.refused e output)
    | .ok place => convertBytes c disk notes (Encoding.announced bytes) input place

/-- Converts a file, and makes the directory of the output first if it is missing. -/
def withDirectory (c : Converter) (disk : Disk) (input output : Text) : Outcome :=
  let directory := (Path.absolute disk.workingDirectory output).dropLast
  let shown := Path.render directory
  if disk.node? directory = some .directory then convertExisting c disk [] input output
  else
    let notes := [Note.log .info ("Creating missing directory: ".toList ++ shown)]
    match disk.makeDirectories directory with
    | .ok disk => convertExisting c disk notes input output
    | .error fault =>
      ⟨false, disk, 0, 0, notes ++ Note.failure ("Unable to create directory ".toList ++ shown ++
        ": ".toList ++ fault.message)⟩

/-- Whether there is a file under a value; only texts are paths. -/
def inputExists (disk : Disk) : Value → Except Fault Bool
  | .text t => .ok (disk.exists? t)
  | .int _ | .bool _ => .ok false
  | other => .error (.noStatus other.kind)

/-- **Converts the input file into the output file**; what is not given is taken from the
configuration. -/
def convert (c : Converter) (config : Configuration) (disk : Disk) (input output : Option Text) :
    Outcome :=
  let input : Value := ((given? input).map Value.text).getD config.inputFile
  let output : Except Fault Value := match given? output with
    | some t => .ok (.text t)
    | none => config.outputFile
  match output, inputExists disk input with
  | .error fault, _ | _, .error fault => failed disk 0 0 [] fault
  | .ok _, .ok false =>
    ⟨false, disk, 0, 0, [.log .warning ("Input file not found: ".toList ++ input.display)]⟩
  | .ok (.text output), .ok true => withDirectory c disk input.display output
  | .ok other, .ok true => failed disk 0 0 [] (.noPath other.kind)

end FileConversion

end SqlRoutine
