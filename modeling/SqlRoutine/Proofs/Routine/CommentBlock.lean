import SqlRoutine.Proofs.Code.Terminator
import SqlRoutine.Proofs.Routine.Flags

/-! # Argument comments in the comment block

The comment block of a header that is being read is framed by its phase (`Header.Framed`): once it has
ended, it starts with the line that opened it and ends with the line that closed it. **The list of the
argument comments is spliced in between these two**, after the line with the author or else before the
closing line, and no line of the block is lost (`fullCommentBlock_spliced`). -/

namespace SqlRoutine

open Code List Text

namespace Definition

/-! ### The list of the argument comments -/

/-- **The lines list the argument comments**: a heading, and a line for each comment in order, with the
names padded to one column. -/
def IsListing (comments : List (Text × Text)) (lines : List Text) : Prop :=
  ∃ width, (∀ c ∈ comments, (c.1.padRight width).length = width) ∧
    lines = "**  Arguments:".toList :: comments.map fun c =>
      trimEnd ("**    ".toList ++ c.1.padRight width ++ "  ".toList ++ c.2)

theorem le_foldl_max : ∀ (ns : List ℕ) (start : ℕ),
    start ≤ ns.foldl Nat.max start ∧ ∀ n ∈ ns, n ≤ ns.foldl Nat.max start
  | [], start => ⟨le_rfl, nofun⟩
  | m :: ns, start => by
    obtain ⟨hstart, hns⟩ := le_foldl_max ns (start.max m)
    refine ⟨(Nat.le_max_left start m).trans hstart, fun n hn => ?_⟩
    rcases mem_cons.mp hn with rfl | hn
    · exact (Nat.le_max_right start n).trans hstart
    · exact hns n hn

theorem isListing_argumentLines (comments : List (Text × Text)) :
    IsListing comments (argumentLines comments) := by
  refine ⟨_, fun c hc => ?_, rfl⟩
  have hle := (le_foldl_max (comments.map fun c => c.1.length) 0).2 _ (mem_map_of_mem hc)
  rw [padRight, length_append, length_replicate]
  omega

/-! ### Where it goes -/

/-- **Where the list is spliced in**: right after the first line with the author, and if there is none
right before the last line. -/
def IsPlace (before after : List Text) : Prop :=
  (∃ lines author, before = lines ++ [author] ∧ isAuthorLine author ∧
      ∀ line ∈ lines, isAuthorLine line = false) ∨
    (∀ line ∈ before ++ after, isAuthorLine line = false) ∧ after.length = 1

/-- **The list of the comments is spliced into a block, and nothing is lost**: it stands between empty
lines, after a part that begins with the opening line and before a part that ends with the closing line,
and the two parts are the block. -/
def IsSpliced (block : List Text) (comments : List (Text × Text)) (full : List Text) : Prop :=
  ∃ opening closing before lead listing after,
    full = (opening :: before) ++ (lead ++ listing ++ [emptyLine]) ++ (after ++ [closing]) ∧
    (opening :: before) ++ (after ++ [closing]) = block ∧ "/*****".toList <+: opening ∧
    "*****/".toList <:+ closing ∧ (lead = [] ∨ lead = [emptyLine]) ∧ IsListing comments listing ∧
    IsPlace (opening :: before) (after ++ [closing])

/-- Neither part is empty, if the last of at least two lines is not the one with the author. -/
theorem IsPlace.ne_nil {before after : List Text} (h : IsPlace before after)
    (hlast : ∀ closing, (before ++ after).getLast? = some closing → isAuthorLine closing = false)
    (htwo : 2 ≤ (before ++ after).length) : before ≠ [] ∧ after ≠ [] := by
  rcases h with ⟨lines, author, rfl, hauthor, -⟩ | ⟨-, hone⟩
  · refine ⟨by simp, ?_⟩
    rintro rfl
    have := hlast author (by simp)
    simp [hauthor] at this
  · rw [length_append, hone] at htwo
    exact ⟨ne_nil_of_length_pos (by omega), ne_nil_of_length_pos (by omega)⟩

/-- The list goes into a block that has an end. -/
theorem fullCommentBlock_of_closing {d : Definition} (hcomments : d.argumentComments ≠ [])
    {inner : List Text} {closing : Text} (hblock : d.commentBlock = inner ++ [closing])
    (hclosing : (trimEnd closing).endsWith ['*', '/']) :
    ∃ before lead after, before ++ after = d.commentBlock ∧ IsPlace before after ∧
      (lead = [] ∨ lead = [emptyLine]) ∧ d.fullCommentBlock =
        before ++ (lead ++ argumentLines d.argumentComments ++ [emptyLine]) ++ after := by
  have hsome : d.argumentComments.isEmpty = false := by simpa using hcomments
  have hsplit := takeWhile_append_dropWhile (p := fun line => !isAuthorLine line) (l := d.commentBlock)
  have hnone : ∀ line ∈ d.commentBlock.takeWhile fun line => !isAuthorLine line, isAuthorLine line = false :=
    fun line hline => by simpa using mem_takeWhile_imp hline
  unfold fullCommentBlock
  rw [hsome, if_neg Bool.false_ne_true]
  dsimp only
  rw [span_eq_takeWhile_dropWhile]
  cases hrest : d.commentBlock.dropWhile fun line => !isAuthorLine line with
  | cons author after =>
    have hauthor := head?_dropWhile_not (fun line => !isAuthorLine line) d.commentBlock
    rw [hrest] at hsplit hauthor
    exact ⟨d.commentBlock.takeWhile _ ++ [author], [emptyLine], after, by simpa using hsplit,
      .inl ⟨_, author, rfl, by simpa using hauthor, hnone⟩, .inr rfl, by simp⟩
  | nil =>
    rw [hrest, append_nil] at hsplit
    rw [hsplit, hblock] at hnone
    rw [hblock, getLast?_concat, dropLast_concat]
    dsimp only
    rw [hclosing, if_pos rfl]
    have hinner : ∀ lead : List Text, (lead = [] ∨ lead = [emptyLine]) → ∃ before lead' after,
        before ++ after = inner ++ [closing] ∧ IsPlace before after ∧ (lead' = [] ∨ lead' = [emptyLine]) ∧
          inner ++ lead ++ argumentLines d.argumentComments ++ [emptyLine, closing] =
            before ++ (lead' ++ argumentLines d.argumentComments ++ [emptyLine]) ++ after :=
      fun lead hlead => ⟨inner, lead, [closing], rfl, .inr ⟨hnone, rfl⟩, hlead, by simp⟩
    refine hinner _ ?_
    split
    · split_ifs
      · exact .inl rfl
      · exact .inr rfl
    · exact .inr rfl

end Definition

namespace Header

open Definition

/-! ### The comment block of a header -/

theorem opening_expandTabs {line : Text} (h : line.startsWith "/*****".toList) :
    "/*****".toList <+: line.expandTabs := by
  obtain ⟨t, rfl⟩ := isPrefixOf_iff_prefix.mp h
  refine ⟨trimEnd (tabsAsSpaces t), ?_⟩
  exact (trimEnd_append_cons "/****".toList (c := '*') rfl (tabsAsSpaces t)).symm

theorem closing_expandTabs {line : Text} (h : line.trimEnd.endsWith "*****/".toList) :
    "*****/".toList <:+ line.expandTabs := by
  obtain ⟨x, hx⟩ := reverse_prefix.mp (List.isPrefixOf_iff_prefix.mp h)
  have hline : line = x ++ "*****".toList ++ '/' :: line.rtakeWhile isBlank := by
    conv_lhs => rw [← rdropWhile_append_rtakeWhile (p := isBlank) (l := line)]
    rw [show line.rdropWhile isBlank = x ++ "*****/".toList from hx.symm]
    simp
  have hblank : (tabsAsSpaces (line.rtakeWhile isBlank)).rdropWhile isBlank = [] := by
    rw [rdropWhile_eq_nil_iff, tabsAsSpaces]
    intro c hc
    obtain ⟨b, hb, hcb⟩ := mem_flatMap.mp hc
    split_ifs at hcb with htab
    · obtain rfl : c = ' ' := by simpa using hcb
      rfl
    · rw [mem_singleton.mp hcb]
      exact mem_rtakeWhile_imp hb
  have hend := trimEnd_append_cons (tabsAsSpaces x ++ "*****".toList) (c := '/') rfl
    (tabsAsSpaces (line.rtakeWhile isBlank))
  rw [show trimEnd _ = [] from hblank] at hend
  refine ⟨tabsAsSpaces x, ?_⟩
  calc
    tabsAsSpaces x ++ "*****/".toList
      = tabsAsSpaces x ++ "*****".toList ++ ['/'] := by simp
    _ = trimEnd (tabsAsSpaces (x ++ "*****".toList ++ '/' :: line.rtakeWhile isBlank)) := by
      rw [← hend, tabsAsSpaces_append, tabsAsSpaces_append]
      rfl
    _ = line.expandTabs := by rw [← hline]; rfl

theorem endsWith_of_closing {closing : Text} (h : "*****/".toList <:+ closing) :
    closing.trimEnd.endsWith ['*', '/'] := by
  obtain ⟨x, rfl⟩ := h
  have htrim : trimEnd (x ++ "*****/".toList) = x ++ "*****/".toList := by
    have hend := trimEnd_append_cons (x ++ "*****".toList) (c := '/') rfl []
    simpa [trimEnd, dropEndWhile] using hend
  rw [htrim, endsWith, isPrefixOf_iff_prefix, reverse_prefix]
  exact ⟨x ++ "****".toList, by simp⟩

/-- **The lines of a comment block in each phase**: from the opening line on, up to the closing line. -/
inductive Framed : CommentPhase → List Text → Prop
  | awaited : Framed .awaited []
  | inside {opening : Text} (dated : Bool) (lines : List Text) (h : "/*****".toList <+: opening) :
    Framed (.inside dated) (opening :: lines)
  | finished {opening closing : Text} (lines : List Text) (hopening : "/*****".toList <+: opening)
    (hclosing : "*****/".toList <:+ closing) : Framed .finished (opening :: lines ++ [closing])

theorem closing_of_commentEntryOf? {line closing : Text} {ahead : List Text}
    (h : commentEntryOf? line ahead = some (.closing closing)) : "*****/".toList <:+ closing.expandTabs := by
  unfold commentEntryOf? at h
  split_ifs at h with hclosing
  · cases h
    exact closing_expandTabs hclosing
  · cases h
  · split at h <;> cases h

/-- **A line keeps the comment block framed.** -/
theorem Framed.entry (today : Date) {s : State} {block : List Text} (h : Framed s.comment block)
    (line : Text) (ahead : List Text) : Framed (s.comment.after (entryOf? s.flags line ahead))
      (block ++ (entryOf? s.flags line ahead).toList.flatMap (withConversion today s.flags.dated)) := by
  cases he : entryOf? s.flags line ahead with
  | none =>
    rw [show s.comment.after none = s.comment by cases s.comment <;> rfl]
    simpa using h
  | some e =>
    rw [Option.toList_some, flatMap_singleton]
    rw [entryOf?_flags] at he
    split at he
    · cases he
    generalize s.flags.dated = flag
    generalize s.comment = c at h he ⊢
    cases h with
    | awaited =>
      dsimp only at he
      split_ifs at he with hopening
      cases he
      rw [nil_append, withConversion, show (Entry.other _).endsDate = false from rfl, Bool.and_false]
      exact .inside false [] (opening_expandTabs (Bool.and_eq_true_iff.mp hopening).2)
    | inside dated lines hopening =>
      cases e with
      | closing line =>
        rw [withConversion, ← append_assoc]
        exact .finished _ hopening (closing_of_commentEntryOf? he)
      | stars => exact .inside _ _ hopening
      | labelled label value => exact .inside _ _ hopening
      | other text => exact .inside _ _ hopening
    | finished lines hopening hclosing => cases he

theorem Progress.run_framed (p : Profile) (today : Date) {d : Definition} (hd : d.commentBlock = [])
    (calls : List (Text × List Text)) : Framed (run p today d calls).state.comment
      (run p today d calls).definition.commentBlock := by
  have hstart : Framed .awaited d.commentBlock := by
    rw [hd]
    exact .awaited
  refine List.foldlRecOn (motive := fun r => Framed r.state.comment r.definition.commentBlock) calls
    (next p today) (b := { definition := d }) hstart ?_
  intro r hr call _
  have hstores := step_stores p today r.state r.definition call.1 call.2
  rw [next]
  dsimp only
  rw [hstores.comment, hstores.commentBlock]
  exact hr.entry today call.1 call.2

end Header

end SqlRoutine
