import SqlRoutine.Proofs.File.Disk
import SqlRoutine.Run

/-! # Runs that end before the conversion

A run comes to convert its input file when the configuration is accepted, the log file opened and the name
map loaded (`Begins`). It ends with the exit code 0 just when the conversion has succeeded, and **a run that
does not come so far, or has no input file, changes nothing but the log file** (`run_exitCode`). -/

namespace SqlRoutine

theorem Disk.node?_erase_of_ne (d : Disk) {place other : List Text} (h : other ≠ place) :
    (d.erase place).node? other = d.node? other := by
  rw [node?, node?, erase, lookup_filter_ne d.nodes h]

theorem Disk.keeps_erase (d : Disk) (place : List Text) : Keeps (d.erase place) d where
  workingDirectory := rfl
  directory other hother := by
    by_cases heq : other = place
    · have hnone : (d.nodes.filter (·.1 != place)).lookup place = none := by
        simp [List.lookup_eq_none_iff, eq_comm (a := place)]
      rw [heq, node?, erase, hnone] at hother
      rw [heq, node?]
      split_ifs at hother ⊢
      rfl
    · rwa [← d.node?_erase_of_ne heq]

/-! ### What a journal may change -/

namespace Journal

/-- **The journal has changed nothing on the disk** but at places with the property, and there are its
log files. -/
structure Leaves (P : List Text → Prop) (disk : Disk) (j : Journal) : Prop where
  files : ∀ place ∈ j.files, P place
  same : ∀ place, ¬P place → j.disk.node? place = disk.node? place

variable {P : List Text → Prop} {disk : Disk} {j : Journal}

theorem node?_append (r : Record) (d : Disk) {file place : List Text} (h : place ≠ file) :
    (append r d file).node? place = d.node? place := by
  unfold append
  split
  · exact d.node?_put_of_ne h _
  · exact d.node?_put_of_ne h _
  · rfl

theorem Leaves.write (h : j.Leaves P disk) (r : Record) : (j.write r).Leaves P disk where
  files := h.files
  same place hplace := by
    refine Eq.trans ?_ (h.same place hplace)
    refine List.foldlRecOn j.files (append r) (motive := fun d => d.node? place = j.disk.node? place) rfl ?_
    intro d hd file hfile
    rwa [node?_append r d fun heq => hplace (by rw [heq]; exact h.files file hfile)]

theorem Leaves.writeAll (h : j.Leaves P disk) (records : List Record) :
    (records.foldl Journal.write j).Leaves P disk :=
  List.foldlRecOn records _ h fun _ hj r _ => hj.write r

end Journal

namespace Run

open Journal (Leaves)

/-! ### The way to the conversion -/

/-- The journal before the configuration is read. -/
def announced (disk : Disk) (cl : CommandLine) : Journal :=
  match cl.config.text? with
  | some file => Journal.writeShown { disk } .info [Configuration.loadingNote file]
  | none => { disk }

/-- The journal after the command line and the settings have been reported. -/
def reported (j : Journal) (cl : CommandLine) (c : Configuration) : Journal :=
  ((commandLineRecords cl).foldl Journal.write j).writeShown c.level c.report.1

/-- The journal before the name map is loaded. -/
def listed (j : Journal) (cl : CommandLine) (c : Configuration) : Journal :=
  if c.level = .debug then (reported j cl c).log .debug
    ("Parsed configuration: ".toList ++ (Value.mapping c.entries).literal)
  else reported j cl c

theorem start_eq (disk : Disk) (cl : CommandLine) (today : Date) : start disk cl today =
    match configuration disk cl with
    | .error fault => failed (announced disk cl) fault
    | .ok c =>
      match startLog (announced disk cl) c.logFileValue with
      | .error fault => failed (announced disk cl) fault
      | .ok opened => proceed opened cl c today := rfl

theorem proceed_eq (opened : Journal) (cl : CommandLine) (c : Configuration) (today : Date) :
    proceed opened cl c today =
      match c.report.2 with
      | some fault => failed (reported opened cl c) fault
      | none =>
        match loadMap (listed opened cl c) c with
        | (j, .ok map) => convertFile j c map today
        | (j, .error (.unreadable fault)) => failed j fault
        | (j, .error (.unusable fault)) =>
          finished 1 (j.log .error ("Unable to load the name map: ".toList ++ fault.message)) := rfl

/-- **The run comes to convert its input file**, with a configuration, a journal and a converter. -/
structure Begins (disk : Disk) (cl : CommandLine) (today : Date) (c : Configuration) (j : Journal)
    (converter : Converter) : Prop where
  accepted : configuration disk cl = .ok c
  loaded : ∃ opened map, startLog (announced disk cl) c.logFileValue = .ok opened ∧ c.report.2 = none ∧
    loadMap (listed opened cl c) c = (j, .ok map) ∧ c.converter map today = .ok converter

/-- **The log file**: where its path leads, as it is given or made absolute. -/
def IsLogFile (disk : Disk) (cl : CommandLine) (place : List Text) : Prop :=
  ∃ c file, configuration disk cl = .ok c ∧ c.logFileValue = .text file ∧ (disk.locate file = .ok place ∨
    disk.locate (Path.render (Path.absolute disk.workingDirectory file)) = .ok place)

section

variable {P : List Text → Prop} {disk : Disk} {cl : CommandLine} {today : Date} {c : Configuration}
  {j opened : Journal} {converter : Converter}

theorem leaves_listed (h : opened.Leaves P disk) (cl : CommandLine) (c : Configuration) :
    (reported opened cl c).Leaves P disk ∧ (listed opened cl c).Leaves P disk := by
  have hreported : (reported opened cl c).Leaves P disk := (h.writeAll _).writeAll _
  refine ⟨hreported, ?_⟩
  unfold listed
  split_ifs
  · exact hreported.write _
  · exact hreported

theorem leaves_loadMap (h : j.Leaves P disk) (c : Configuration) : (loadMap j c).1.Leaves P disk := by
  unfold loadMap readMap
  split_ifs
  · exact h
  split
  · split_ifs
    · dsimp only
      split
      · exact h.writeAll _
      · exact h.writeAll _
      · split
        · exact h.writeAll _
        · exact (h.writeAll _).writeAll _
    · exact h
  · exact h
  · exact h

theorem announced_spec (disk : Disk) (cl : CommandLine) :
    (announced disk cl).disk = disk ∧ (announced disk cl).files = [] := by
  unfold announced
  split
  · exact ⟨rfl, rfl⟩
  · exact ⟨rfl, rfl⟩

/-- Opening a log file changes nothing elsewhere. -/
theorem leaves_openFile {file : Text} (h : j.Leaves P disk) (hopen : j.openFile file = .ok opened)
    (hfile : ∀ place, j.disk.locate (Path.render (Path.absolute j.disk.workingDirectory file)) = .ok place →
      P place) : opened.Leaves P disk := by
  unfold Journal.openFile at hopen
  dsimp only at hopen
  split at hopen
  · cases hopen
  · next place hplace =>
    have hlog : P place := hfile place (Disk.locate_of_writable hplace).1
    cases hopen
    refine ⟨List.forall_mem_append.mpr ⟨h.files, List.forall_mem_singleton.mpr hlog⟩, fun other hother => ?_⟩
    rw [← h.same other hother]
    dsimp only
    split_ifs
    · rfl
    · exact j.disk.node?_put_of_ne (fun heq => hother (by rwa [heq])) _

/-- **Opening the log changes nothing but the log file.** -/
theorem leaves_startLog (hc : configuration disk cl = .ok c)
    (h : startLog (announced disk cl) c.logFileValue = .ok opened) :
    opened.Leaves (IsLogFile disk cl) disk := by
  obtain ⟨hdisk, hfiles⟩ := announced_spec disk cl
  have hnone : ∀ place ∈ (announced disk cl).files, IsLogFile disk cl place := by
    rw [hfiles]
    exact nofun
  cases hvalue : c.logFileValue with
  | text file =>
    rw [hvalue, startLog] at h
    split at h
    · cases h
    · next place _ _ hplace =>
      -- the old log is gone, and the path leads where it led
      rw [hdisk] at hplace h
      have hlog : IsLogFile disk cl place := ⟨c, file, hc, hvalue, .inl hplace⟩
      have hleaves : Leaves (IsLogFile disk cl) disk { announced disk cl with disk := disk.erase place } :=
        ⟨hnone, fun other hother => disk.node?_erase_of_ne fun heq => hother (by rwa [heq])⟩
      refine leaves_openFile hleaves h fun other hother => ?_
      exact ⟨c, file, hc, hvalue, .inr ((disk.keeps_erase place).locate hother)⟩
    · refine leaves_openFile ⟨hnone, fun _ _ => by rw [hdisk]⟩ h fun other hother => ?_
      rw [hdisk] at hother
      exact ⟨c, file, hc, hvalue, .inr hother⟩
  | _ =>
    rw [hvalue] at h
    cases h

/-! ### How a run ends -/

/-- **A run comes to convert its input file, or it fails**; until then nothing is changed but the log
file. -/
theorem start_cases (disk : Disk) (cl : CommandLine) (today : Date) :
    (∃ c j converter, Begins disk cl today c j converter ∧ j.Leaves (IsLogFile disk cl) disk) ∨
      ∃ j, start disk cl today = finished 1 j ∧ j.Leaves (IsLogFile disk cl) disk := by
  obtain ⟨hdisk, hfiles⟩ := announced_spec disk cl
  have hstart : (announced disk cl).Leaves (IsLogFile disk cl) disk :=
    ⟨by rw [hfiles]; exact nofun, fun _ _ => by rw [hdisk]⟩
  rw [start_eq]
  cases hc : configuration disk cl with
  | error fault => exact .inr ⟨_, rfl, hstart.write _⟩
  | ok c =>
  dsimp only
  cases hopened : startLog (announced disk cl) c.logFileValue with
  | error fault => exact .inr ⟨_, rfl, hstart.write _⟩
  | ok opened =>
  obtain ⟨hreported, hlisted⟩ := leaves_listed (leaves_startLog hc hopened) cl c
  dsimp only
  rw [proceed_eq]
  cases hreport : c.report.2 with
  | some fault => exact .inr ⟨_, rfl, hreported.write _⟩
  | none =>
  have hleaves := leaves_loadMap hlisted c
  dsimp only
  cases hloaded : loadMap (listed opened cl c) c with
  | mk j loaded =>
  rw [hloaded] at hleaves
  cases loaded with
  | error failure => cases failure <;> exact .inr ⟨_, rfl, hleaves.write _⟩
  | ok map =>
  dsimp only
  cases hconverter : c.converter map today with
  | error fault => exact .inr ⟨_, by rw [convertFile, hconverter]; rfl, hleaves.write _⟩
  | ok converter =>
    exact .inl ⟨c, j, converter, ⟨hc, opened, map, hopened, hreport, hloaded, hconverter⟩, hleaves⟩

theorem Begins.start_eq (h : Begins disk cl today c j converter) :
    ∃ records : List Record, start disk cl today =
      let o := FileConversion.convert converter c j.disk none none
      finished (if o.succeeded then 0 else 1) (records.foldl Journal.write { j with disk := o.disk }) := by
  obtain ⟨hc, opened, map, hopened, hreport, hloaded, hconverter⟩ := h
  rw [Run.start_eq, hc]
  dsimp only
  rw [hopened]
  dsimp only
  rw [proceed_eq, hreport]
  dsimp only
  rw [hloaded]
  dsimp only
  rw [convertFile, hconverter]
  dsimp only
  split_ifs
  · exact ⟨_ ++ [_], by rw [List.foldl_append]; rfl⟩
  · exact ⟨_ ++ [_], by rw [List.foldl_append]; rfl⟩

/-- An input file that is not there fails the conversion, and nothing is changed. -/
theorem convert_missing (converter : Converter)
    (h : FileConversion.inputExists disk c.inputFile ≠ .ok true) :
    (FileConversion.convert converter c disk none none).succeeded = false ∧
      (FileConversion.convert converter c disk none none).disk = disk := by
  have hinput : ((given? none).map Value.text).getD c.inputFile = c.inputFile := rfl
  unfold FileConversion.convert
  rw [hinput]
  dsimp only
  split
  · exact ⟨rfl, rfl⟩
  · exact ⟨rfl, rfl⟩
  · exact ⟨rfl, rfl⟩
  · next hexists => exact absurd hexists h
  · next hexists => exact absurd hexists h

end

end Run

end SqlRoutine
