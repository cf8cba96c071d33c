import SqlRoutine.Proofs.File.Conversion
import SqlRoutine.Proofs.Script.CalledName

/-! # The default output file

The output for an input file stands beside it and has another name (`split_defaultOutputFile`,
`defaultName_ne`). Paths that differ in the last part only lead to different places
(`Disk.locate_ne_of_split`), so **a conversion without an output setting keeps the configured input**. An
input that is given in its place is kept as well, unless it is at the place where the output for the
configured one goes: then it is emptied before it is read (`convert_keeps_input`). -/

namespace SqlRoutine

open Text
open List hiding splitOn

/-! ### Directories and last parts -/

namespace Path

variable {file path x : Text}

theorem exists_last (path : Text) : '/' ∉ path ∨ ∃ x file, path = x ++ '/' :: file ∧ '/' ∉ file := by
  by_cases h : '/' ∈ path
  · obtain ⟨a, b, heq, hnone⟩ := eq_append_cons_of_mem (mem_reverse.mpr h)
    refine .inr ⟨b.reverse, a.reverse, ?_, by simpa using hnone⟩
    rw [← reverse_reverse path, heq]
    simp
  · exact .inl h

/-- The directory of what stands behind `x` and a slash. -/
def folder (x : Text) : Text := if x.all (· == '/') then x ++ ['/'] else x.dropEndWhile (· == '/')

theorem split_of_not_mem (h : '/' ∉ path) : split path = ([], path) := by
  rw [split, uptoLast_of_not_mem h, afterLast_of_not_mem h]
  rfl

theorem split_append (h : '/' ∉ file) (x : Text) : split (x ++ '/' :: file) = (folder x, file) := by
  have hdrop : dropEndWhile (· == '/') (x ++ ['/']) = x.dropEndWhile (· == '/') :=
    rdropWhile_concat_pos _ _ _ rfl
  rw [split, uptoLast_append h, afterLast_append h, folder]
  simp only [hdrop]
  simp

theorem not_mem_split (path : Text) : '/' ∉ (split path).2 := by
  rcases exists_last path with h | ⟨x, file, rfl, h⟩
  · rwa [split_of_not_mem h]
  · rwa [split_append h]

/-- The directory of a path has slashes only, or ends with none. -/
theorem folder_cases (x : Text) : (x.all (· == '/') ∧ folder x = x ++ ['/']) ∨
    ∃ y slashes, x = y ++ slashes ∧ slashes.all (· == '/') ∧ y ≠ [] ∧ y.getLast? ≠ some '/' ∧
      folder x = y ∧ folder y = y := by
  by_cases hall : x.all (· == '/')
  · exact .inl ⟨hall, if_pos hall⟩
  · have hne : x.rdropWhile (· == '/') ≠ [] := by
      rw [Ne, rdropWhile_eq_nil_iff]
      exact fun h => hall (all_eq_true.mpr h)
    have hlast := rdropWhile_last_not (· == '/') x hne
    have hfolder : folder x = x.rdropWhile (· == '/') := if_neg hall
    have hagain : folder (x.rdropWhile (· == '/')) = x.rdropWhile (· == '/') := by
      have hall : ¬(x.rdropWhile (· == '/')).all (· == '/') := fun h =>
        hlast (all_eq_true.mp h _ (getLast_mem hne))
      exact (if_neg hall).trans (rdropWhile_idempotent ..)
    refine .inr ⟨_, _, (rdropWhile_append_rtakeWhile ..).symm,
      all_eq_true.mpr fun _ => mem_rtakeWhile_imp, hne, fun h => hlast ?_, hfolder, hagain⟩
    rw [getLast?_eq_some_getLast hne, Option.some.injEq] at h
    rw [h]
    rfl

theorem isAbsolute_eq (path : Text) : isAbsolute path = (path.head? == some '/') := by
  cases path with
  | nil => rfl
  | cons c path => simp [isAbsolute, startsWith, isPrefixOf, Bool.beq_comm (a := c)]

theorem endsWith_slash (path : Text) : path.endsWith ['/'] = (path.getLast? == some '/') := by
  rw [getLast?_eq_head?_reverse, ← isAbsolute_eq]
  rfl

theorem parts_append (x y : Text) : parts (x ++ '/' :: y) = parts x ++ parts y := by
  rw [parts, Script.splitOn_append, filter_append, ← parts, ← parts]

theorem parts_of_not_mem (h : '/' ∉ file) : parts file = if file.isEmpty then [] else [file] := by
  have hone : splitOn '/' file = [file] := by
    induction file with
    | nil => rfl
    | cons c file ih =>
      rw [mem_cons, not_or] at h
      rw [splitOn, if_neg (Ne.symm h.1), ih h.2]
  rw [parts, hone]
  cases file <;> rfl

theorem parts_slashes {slashes : Text} (h : slashes.all (· == '/')) (x : Text) :
    parts (x ++ slashes) = parts x := by
  induction slashes generalizing x with
  | nil => rw [append_nil]
  | cons c slashes ih =>
    rw [all_cons, Bool.and_eq_true, beq_iff_eq] at h
    rw [h.1, parts_append, ← nil_append slashes, ih h.2]
    exact append_nil _

/-- **A path is its directory and its last part.** -/
theorem parts_split (path : Text) : parts path = parts (split path).1 ++ parts (split path).2 ∧
    isAbsolute path = isAbsolute (split path).1 := by
  rcases exists_last path with h | ⟨x, file, rfl, h⟩
  · rw [split_of_not_mem h, isAbsolute_eq]
    refine ⟨rfl, beq_false_of_ne fun hhead => h (mem_of_head? hhead)⟩
  · rw [split_append h, parts_append, isAbsolute_eq, isAbsolute_eq]
    rcases folder_cases x with ⟨-, hfolder⟩ | ⟨y, slashes, rfl, hslashes, hne, -, hfolder, -⟩
    · rw [hfolder, parts_append]
      refine ⟨by simp [parts, splitOn], ?_⟩
      cases x <;> rfl
    · rw [hfolder, parts_slashes hslashes]
      obtain ⟨c, y, rfl⟩ := exists_cons_of_ne_nil hne
      exact ⟨rfl, rfl⟩

theorem endsWith_slash_split (h : path ≠ []) : path.endsWith ['/'] = (split path).2.isEmpty := by
  rw [endsWith_slash]
  rcases exists_last path with hnone | ⟨x, file, rfl, hnone⟩
  · rw [split_of_not_mem hnone, beq_false_of_ne fun hlast => hnone (mem_of_getLast? hlast)]
    simpa using h
  · rw [split_append hnone]
    cases file with
    | nil => simp
    | cons c file =>
      rw [append_cons, getLast?_append_of_ne_nil _ (cons_ne_nil c file),
        beq_false_of_ne fun hlast => hnone (mem_of_getLast? hlast)]
      rfl

end Path

namespace Disk

variable {d : Disk} {a : Text} {parts place start : List Text} {path path' : Text}

theorem exists_follow_concat (h : d.follow start (parts ++ [a]) = .ok place) :
    ∃ above, d.follow start parts = .ok above ∧
      (place.length ≤ above.length ∧ (a = ['.'] ∨ a = ['.', '.']) ∨ place = above ++ [a]) := by
  induction parts generalizing start with
  | nil =>
    rw [nil_append, follow] at h
    refine ⟨start, rfl, ?_⟩
    split at h
    · cases h
    · split_ifs at h with hdot hdots <;> cases h
      · exact .inl ⟨le_rfl, .inl hdot⟩
      · exact .inl ⟨by simp, .inr hdots⟩
      · exact .inr rfl
    · cases h
  | cons part parts ih =>
    rw [cons_append, follow] at h
    rw [follow]
    split at h
    · cases h
    · split_ifs at h ⊢ with hdot hdots <;> exact ih h
    · cases h

theorem locate_split (h : path ≠ []) : d.locate path =
    d.follow (if Path.isAbsolute (Path.split path).1 then [] else d.workingDirectory)
      (Path.parts (Path.split path).1 ++
        [if (Path.split path).2.isEmpty then ['.'] else (Path.split path).2]) := by
  obtain ⟨hparts, habsolute⟩ := Path.parts_split path
  have hlast := Path.parts_of_not_mem (Path.not_mem_split path)
  have hempty : path.isEmpty = false := by simpa using h
  rw [locate, hempty, if_neg Bool.false_ne_true, Path.endsWith_slash_split h, habsolute, hparts, hlast]
  split_ifs <;> simp

/-- **Files beside each other**: paths with the same directory and different names lead to different
places. -/
theorem locate_ne_of_split {place' : List Text} (hdirectory : (Path.split path).1 = (Path.split path').1)
    (hname : (Path.split path').2 ≠ (Path.split path).2)
    (hproper : (Path.split path').2 ∉ [[], ['.'], ['.', '.']])
    (h : d.locate path = .ok place) (h' : d.locate path' = .ok place') : place ≠ place' := by
  rw [locate_split (path_ne_nil_of_locate h), hdirectory] at h
  rw [locate_split (path_ne_nil_of_locate h')] at h'
  simp only [mem_cons, not_mem_nil, not_or, or_false] at hproper
  have hnonempty : (Path.split path').2.isEmpty = false := by simpa using hproper.1
  rw [hnonempty, if_neg Bool.false_ne_true] at h'
  obtain ⟨above, habove, hplace⟩ := exists_follow_concat h
  obtain ⟨above', habove', hplace'⟩ := exists_follow_concat h'
  rw [habove'] at habove
  cases habove
  rcases hplace' with ⟨-, hdot | hdots⟩ | rfl
  · exact absurd hdot hproper.2.1
  · exact absurd hdots hproper.2.2
  rcases hplace with ⟨hlength, -⟩ | rfl
  · rintro rfl
    simp at hlength
  · intro heq
    have hlast := (append_inj' heq rfl).2
    rw [singleton_inj] at hlast
    split_ifs at hlast with hempty
    · exact hproper.2.1 hlast.symm
    · exact hname hlast.symm

end Disk

/-! ### The default name -/

namespace Configuration

variable {file : Text}

/-- The file name of the default output. -/
def defaultName (file : Text) : Text := Path.withoutExtension file ++ outputSuffix

theorem defaultName_ne (file : Text) : defaultName file ≠ file := by
  have hsuffix : outputSuffix.length = 13 := rfl
  intro h
  rw [defaultName, Path.withoutExtension] at h
  split_ifs at h
  · have hlength := congrArg length h
    rw [length_append] at hlength
    omega
  · -- the last dot of the file name is that of the suffix, so less is cut off than the suffix has
    have hdot : uptoLast '.' ((uptoLast '.' file).dropLast ++ "_postgres".toList ++ '.' :: "sql".toList) =
        (uptoLast '.' file).dropLast ++ "_postgres".toList ++ ['.'] := uptoLast_append (by decide)
    have hsame : (uptoLast '.' file).dropLast ++ "_postgres".toList ++ '.' :: "sql".toList = file := by
      rw [append_assoc]
      exact h
    rw [hsame] at hdot
    have hlength := congrArg (fun t : Text => t.dropLast.length) hdot
    simp only [dropLast_concat, length_append] at hlength
    have hpostgres : "_postgres".toList.length = 9 := rfl
    omega

theorem not_mem_defaultName (h : '/' ∉ file) : '/' ∉ defaultName file := by
  have hsub : ∀ c ∈ Path.withoutExtension file, c ∈ file := by
    intro c hc
    rw [Path.withoutExtension] at hc
    split_ifs at hc
    · exact hc
    · have hmem := mem_reverse.mp (mem_of_mem_dropLast hc)
      exact mem_reverse.mp ((dropWhile_suffix _).subset hmem)
  rw [defaultName, mem_append, not_or]
  exact ⟨fun hmem => h (hsub _ hmem), by decide⟩

/-- **The default output stands beside the input.** -/
theorem split_defaultOutputFile (input : Text) : Path.split (defaultOutputFile input) =
    ((Path.split input).1, defaultName (Path.split input).2) := by
  have hname := not_mem_defaultName (Path.not_mem_split input)
  have hrelative : Path.isAbsolute (defaultName (Path.split input).2) = false := by
    rw [Path.isAbsolute_eq]
    exact beq_false_of_ne fun hhead => hname (mem_of_head? hhead)
  have hjoin (x : Text) (hne : x ≠ []) : Path.join x (defaultName (Path.split input).2) =
      if x.endsWith ['/'] then x ++ defaultName (Path.split input).2
      else x ++ '/' :: defaultName (Path.split input).2 := by
    rw [Path.join, hrelative, Bool.false_or, if_neg (by simpa using hne)]
  have hfile : defaultOutputFile input = if (Path.split input).1.isEmpty
      then defaultName (Path.split input).2
      else Path.join (Path.split input).1 (defaultName (Path.split input).2) := rfl
  rw [hfile]
  rcases Path.exists_last input with h | ⟨x, file, rfl, h⟩
  · rw [Path.split_of_not_mem h] at hname ⊢
    exact Path.split_of_not_mem hname
  · rw [Path.split_append h] at hname hjoin ⊢
    rcases Path.folder_cases x with ⟨-, hfolder⟩ | ⟨y, slashes, -, -, hne, hlast, hfolder, hagain⟩
    · have hend : endsWith (x ++ ['/']) ['/'] := by simp [Path.endsWith_slash]
      dsimp only at hname hjoin ⊢
      rw [hfolder, hjoin _ (by simp), hend, if_pos rfl, if_neg (by simp), append_assoc,
        singleton_append, Path.split_append hname, hfolder]
    · have hend : endsWith y ['/'] = false := by rw [Path.endsWith_slash, beq_false_of_ne hlast]
      dsimp only at hname hjoin ⊢
      rw [hfolder, hjoin _ hne, hend, if_neg Bool.false_ne_true, if_neg (by simpa using hne),
        Path.split_append hname, hagain]

end Configuration

/-! ### Conversion without an output setting -/

namespace FileConversion

open SqlRoutine.Configuration (defaultName defaultOutputFile outputSuffix split_defaultOutputFile)

variable {c : Converter} {config : Configuration} {disk ready : Disk} {bytes : Bytes} {input output : Text}
  {place : List Text} {notes : List Note}

/-- The input is at the place where the output is written. -/
def Overwrites (disk : Disk) (input output : Text) : Prop :=
  ∃ ready place, prepared disk output = .ok ready ∧ ready.locate input = .ok place ∧
    ready.writable output = .ok place

theorem exists_of_read (h : disk.read input = .ok bytes) : ∃ place node, disk.locate input = .ok place ∧
    disk.node? place = some node ∧ ∀ d : Disk, d.locate input = .ok place → d.node? place = some node →
      d.read input = .ok bytes := by
  cases hlocate : disk.locate input with
  | error e => simp [Disk.read, hlocate, bind, Except.bind] at h
  | ok place =>
    simp only [Disk.read, hlocate, bind, Except.bind] at h
    cases hnode : disk.node? place with
    | none => simp [hnode] at h
    | some node =>
      refine ⟨place, node, rfl, hnode, fun d hplace hsame => ?_⟩
      rw [hnode] at h
      simp only [Disk.read, hplace, bind, Except.bind, hsame]
      exact h

theorem disk_convertBytes (encoding : Encoding) (hread : (disk.put place (.file [])).read input = .ok bytes) :
    (convertBytes c disk notes encoding input place).disk = (disk.put place (.file [])).put place
      (.file (Encoding.encodeUtf8 (Script.convert c {} (source (encoding.decode bytes))).state.output)) := by
  simp only [convertBytes, hread]
  cases (Script.convert c {} (source (encoding.decode bytes))).fault <;> rfl

/-- Nothing comes of an empty file. -/
theorem output_empty (c : Converter) (encoding : Encoding) :
    (Script.convert c {} (source (encoding.decode []))).state.output = [] := by
  cases encoding <;> rfl

/-- **What becomes of the input**: it is emptied if the output is written at its place, and kept if not. -/
theorem read_withDirectory (c : Converter) (h : disk.read input = .ok bytes) :
    (Overwrites disk input output → (withDirectory c disk input output).disk.read input = .ok []) ∧
      (¬Overwrites disk input output →
        (withDirectory c disk input output).disk.read input = .ok bytes) := by
  obtain ⟨place, node, hplace, hnode, hsame⟩ := exists_of_read h
  cases hready : prepared disk output with
  | error fault =>
    have hdisk : (withDirectory c disk input output).disk = disk := by
      unfold prepared at hready
      unfold withDirectory
      dsimp only at hready ⊢
      split_ifs at hready ⊢
      rw [hready]
    rw [hdisk]
    refine ⟨?_, fun _ => h⟩
    rintro ⟨ready, -, hok, -⟩
    rw [hready] at hok
    cases hok
  | ok ready =>
    obtain ⟨hworking, hnodes⟩ := prepared_keeps hready
    have hkept : Disk.Keeps disk ready := ⟨hworking, fun at' => hnodes at' .directory⟩
    have hthere := hkept.locate hplace
    have hread := hsame ready hthere (hnodes place node hnode)
    obtain ⟨notes, hnotes⟩ := withDirectory_of_prepared c input hready
    have hover : Overwrites disk input output ↔ ready.writable output = .ok place := by
      constructor
      · rintro ⟨ready', place', hready', hplace', hwritable⟩
        rw [hready] at hready'
        cases hready'
        rw [hthere] at hplace'
        cases hplace'
        exact hwritable
      · exact fun hwritable => ⟨ready, place, hready, hthere, hwritable⟩
    rw [hover, hnotes]
    simp only [convertExisting, hread]
    cases hwritable : ready.writable output with
    | error e => exact ⟨by simp, fun _ => hread⟩
    | ok place' =>
      obtain ⟨-, hfree⟩ := Disk.locate_of_writable hwritable
      have hroot := Disk.ne_nil_of_node? hfree
      have hempty : Disk.Keeps ready (ready.put place' (.file [])) := Disk.keeps_put hfree _
      have hemptyNode : (ready.put place' (.file [])).node? place' ≠ some .directory := by
        rw [Disk.node?_put_self ready hroot]
        simp
      have hwritten (written : Bytes) := hempty.trans (Disk.keeps_put hemptyNode (.file written))
      dsimp only
      rw [Except.ok.injEq]
      refine ⟨?_, fun hne => ?_⟩
      · rintro rfl
        have hgone : (ready.put place' (.file [])).read input = .ok [] :=
          Disk.read_of_locate (hempty.locate hthere) (Disk.node?_put_self ready hroot _)
        rw [disk_convertBytes _ hgone, output_empty]
        exact Disk.read_of_locate ((hwritten _).locate hthere) (Disk.node?_put_self _ hroot _)
      · have hother : place ≠ place' := Ne.symm hne
        have hstays := hsame _ (hempty.locate hthere)
          ((Disk.node?_put_of_ne ready hother _).trans (hnodes place node hnode))
        rw [disk_convertBytes _ hstays]
        refine hsame _ ((hwritten _).locate hthere) ?_
        rw [Disk.node?_put_of_ne _ hother, Disk.node?_put_of_ne _ hother, hnodes place node hnode]

/-- The output for an input file is never written over it. -/
theorem not_overwrites_default (disk : Disk) (input : Text) :
    ¬Overwrites disk input (defaultOutputFile input) := by
  rintro ⟨ready, place, -, hinput, houtput⟩
  have hsplit := split_defaultOutputFile input
  have hlast : (defaultName (Path.split input).2).getLast? = some 'l' := by
    rw [defaultName, getLast?_append]
    rfl
  refine Disk.locate_ne_of_split ?_ ?_ ?_ hinput (Disk.locate_of_writable houtput).1 rfl
  · rw [hsplit]
  · rw [hsplit]
    exact Configuration.defaultName_ne _
  · rw [hsplit]
    intro hmem
    simp only [mem_cons, not_mem_nil, or_false] at hmem
    rcases hmem with h | h | h <;> rw [h] at hlast <;> cases hlast

/-- **The default output file is another one than the input**: it is in the same directory and has the name
of the input with another ending. So a conversion without an output setting keeps the configured input. An
input that is given in its place is kept unless it is where the output for the configured one goes: then it
is emptied. -/
theorem convert_keeps_input (t : Text) :
    (Path.split (defaultOutputFile t) =
        ((Path.split t).1, Path.withoutExtension (Path.split t).2 ++ outputSuffix) ∧
      (Path.split (defaultOutputFile t)).2 ≠ (Path.split t).2 ∧
      ∀ disk : Disk, ¬Overwrites disk t (defaultOutputFile t)) ∧
    ∀ (c : Converter) (config : Configuration) (disk : Disk) (given : Option Text) (bytes : Bytes),
      config.inputFile = .text t → config.present? "output_file".toList = none →
      disk.read ((given? given).getD t) = .ok bytes →
        (Overwrites disk ((given? given).getD t) (defaultOutputFile t) →
          (convert c config disk given none).disk.read ((given? given).getD t) = .ok []) ∧
        (¬Overwrites disk ((given? given).getD t) (defaultOutputFile t) →
          (convert c config disk given none).disk.read ((given? given).getD t) = .ok bytes) := by
  refine ⟨⟨split_defaultOutputFile t, ?_, fun disk => not_overwrites_default disk t⟩, ?_⟩
  · rw [split_defaultOutputFile]
    exact Configuration.defaultName_ne _
  · intro c config disk given bytes hinput houtput hread
    obtain ⟨place, node, hplace, hnode, -⟩ := exists_of_read hread
    have hvalue : ((given? given).map Value.text).getD config.inputFile =
        .text ((given? given).getD t) := by
      rw [hinput]
      cases given? given <;> rfl
    have hconvert : convert c config disk given none =
        withDirectory c disk ((given? given).getD t) (defaultOutputFile t) := by
      have hexists := Disk.exists?_of_locate hplace hnode
      have hnone : given? none = none := rfl
      have hfile : config.outputFile = .ok (.text (defaultOutputFile t)) := by
        simp only [Configuration.outputFile, houtput, hinput]
      simp only [convert, hvalue, hnone, hfile, inputExists, hexists, Value.display]
    rw [hconvert]
    exact read_withDirectory c hread

/-- Without a name of its own, the output for `jobs.sql` goes over an input `jobs_postgres.sql`. -/
theorem convert_keeps_input_given :
    let c : Converter := { profile := .standard, renames := none, today := ⟨2024, 5, 1⟩ }
    let config : Configuration := ⟨[("input_file".toList, .text "jobs.sql".toList)], none⟩
    let disk : Disk := ⟨[], [(["jobs.sql".toList], .file [65]), (["jobs_postgres.sql".toList], .file [66])]⟩
    (convert c config disk none none).disk.read "jobs.sql".toList = .ok [65] ∧
      (convert c config disk (some "jobs_postgres.sql".toList) none).disk.read
        "jobs_postgres.sql".toList = .ok [] := by
  intro c config disk
  obtain ⟨⟨-, -, hbeside⟩, hconvert⟩ := convert_keeps_input "jobs.sql".toList
  have hkept := hconvert c config disk none [65] rfl rfl rfl
  have hgiven := hconvert c config disk (some "jobs_postgres.sql".toList) [66] rfl rfl rfl
  exact ⟨hkept.2 (hbeside disk), hgiven.1 ⟨disk, ["jobs_postgres.sql".toList], rfl, rfl, rfl⟩⟩

end FileConversion

end SqlRoutine
