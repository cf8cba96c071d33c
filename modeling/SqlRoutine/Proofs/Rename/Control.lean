import SqlRoutine.Proofs.Rename.Idempotence

/-! # Lines of control flow in blocks

A line of control flow ends every block before it, so the only block that it can belong to is the one
that is spread out from it (`Partition.eq_seed`). But a block is spread out from its seed whatever the seed
is: a line of control flow that mentions a table **draws in** the lines of code before it that are in no
block yet (`Draws`), and the columns of the tables that it mentions, or that are mentioned behind it, are
renamed in these lines too. If it draws in nothing, the lines before it come to what they come to without
it (`renamePortions_take`). -/

namespace SqlRoutine.Renaming

open Code List

variable {mentions : Text → Bool} {body : List Text} {line : Text} {i : ℕ}

/-! ### Boundaries -/

theorem not_isCommentOnly_of_control (h : startsControl line) : isCommentOnly line = false := by
  obtain ⟨k, hk, hword⟩ := any_eq_true.mp h
  obtain ⟨rest, hrest⟩ := Option.isSome_iff_exists.mp hword
  obtain ⟨left, hleft, -⟩ := Option.bind_eq_some_iff.mp hrest
  obtain ⟨m, hm, htrim⟩ := Text.keyword?_eq_some_iff.mp hleft
  have hletters : ∀ k ∈ boundaryWords, k.map letterKey ≠ [] ∧ (k.map letterKey).head? ≠ some '-' := by
    decide
  have hletter := hletters k hk
  rw [isCommentOnly_eq, ← Bool.not_eq_true, startsWith_dashes_iff, htrim]
  rintro ⟨hdash, -⟩
  rw [← hm] at hletter
  cases m with
  | nil => exact hletter.1 rfl
  | cons c m =>
    obtain rfl : c = '-' := Option.some.inj hdash
    exact hletter.2 rfl

/-- **A line of control flow ends every block.** -/
theorem isBoundary_of_control (h : startsControl line) (comments : Bool) :
    isBoundary comments line := by
  rw [isBoundary, not_isCommentOnly_of_control h, h]
  cases comments <;> simp

theorem isInner_of_control (h : startsControl line) (comments : Bool) :
    isInner comments line = false := by
  rw [isInner, isBoundary_of_control h]
  rfl

theorem isInner_false_iff : isInner false line ↔ isBoundary false line = false := by
  rw [isInner, Bool.not_eq_true']

theorem isBoundary_of_comment (h : isCommentOnly line) : isBoundary false line := by
  rw [isBoundary, h]
  simp

theorem isCommentOnly_of_not_isBoundary {comments : Bool} (h : isBoundary comments line = false) :
    isCommentOnly line = comments := by
  rw [isBoundary, Bool.or_eq_false_iff, Bool.or_eq_false_iff] at h
  simpa using h.1.2

/-! ### The lines that are drawn in -/

/-- **The line at `i` draws in the lines from `start` on**: it mentions a table, and the lines between are
code, mention none, and stand behind the start of the body or behind a boundary that is not the seed of a
block of code. -/
structure Draws (mentions : Text → Bool) (body : List Text) (start i : ℕ) : Prop where
  lt : start < i
  at_line : ∃ line, body[i]? = some line ∧ mentions line
  between : ∀ j line, start ≤ j → j < i → body[j]? = some line →
    isInner false line ∧ mentions line = false
  before : ∀ line, 0 < start → body[start - 1]? = some line →
    isBoundary false line ∧ (isCommentOnly line ∨ mentions line = false)

/-- The lines of a block are all code or all comments. -/
theorem Interval.IsBlock.isCommentOnly_eq {b : Interval} {seed : Text} (h : b.IsBlock mentions body seed)
    (hi : b.Contains i) (hline : body[i]? = some line) : isCommentOnly line = isCommentOnly seed := by
  by_cases hseed : i = b.seed
  · rw [hseed, h.at_seed] at hline
    rw [Option.some.inj hline]
  · exact isCommentOnly_of_not_isBoundary (h.inner i line hi hseed hline)

theorem exists_getElem? (h : i < body.length) : ∃ line, body[i]? = some line :=
  ⟨_, getElem?_eq_getElem h⟩

section

variable {blocks : List Interval} {b : Interval} (h : Partition mentions body blocks)
include h

/-- **The block that a line of control flow belongs to is spread out from it.** -/
theorem Partition.eq_seed (hb : b ∈ blocks) (hi : b.Contains i) (hline : body[i]? = some line)
    (hcontrol : startsControl line) : b.seed = i := by
  obtain ⟨seed, hblock, -⟩ := h.isBlock b hb
  by_contra hne
  have hinner := hblock.inner i line hi (Ne.symm hne) hline
  rw [isBoundary_of_control hcontrol] at hinner
  cases hinner

theorem Partition.stop_lt {a : Interval} (ha : a ∈ blocks) (hb : b ∈ blocks) (hi : a.Contains i)
    (hlt : i < b.start) : a.stop < b.start := by
  have hsymm : Std.Symm fun a b : Interval => a.stop < b.start ∨ b.stop < a.start :=
    ⟨fun _ _ => Or.symm⟩
  have hapart := (h.ordered.imp fun hab => Or.inl hab :
    blocks.Pairwise fun a b => a.stop < b.start ∨ b.stop < a.start)
  have hne : a ≠ b := by
    rintro rfl
    exact absurd hi.1 (by omega)
  rcases hapart.forall ha hb hne with hlt' | hgt
  · exact hlt'
  · have hle := hi.1
    have hstart := b.start_le
    have hstop := b.le_stop
    omega

/-- If a block ends where a line of code follows that is no boundary, it is a block of comments. -/
theorem Partition.isCommentOnly_stop {a : Interval} {next : Text} (ha : a ∈ blocks)
    (hline : body[a.stop]? = some line) (hnext : body[a.stop + 1]? = some next)
    (hinner : isBoundary false next = false) : isCommentOnly line := by
  obtain ⟨seed, hblock, -⟩ := h.isBlock a ha
  have hboundary := hblock.next next hnext
  have hcontains : a.Contains a.stop := ⟨a.start_le.trans a.le_stop, le_rfl⟩
  rw [hblock.isCommentOnly_eq hcontains hline]
  by_contra hcode
  rw [Bool.not_eq_true] at hcode
  rw [hcode, hinner] at hboundary
  cases hboundary

variable {start : ℕ} (hline : body[i]? = some line) (hcontrol : startsControl line)
include hline hcontrol

theorem Partition.draws (hb : b ∈ blocks) (hseed : b.seed = i) (hlt : b.start < i) :
    Draws mentions body b.start i := by
  obtain ⟨seed, hblock, hbefore⟩ := h.isBlock b hb
  obtain rfl : seed = line := by
    have hat := hblock.at_seed
    rw [hseed, hline] at hat
    exact (Option.some.inj hat).symm
  rw [not_isCommentOnly_of_control hcontrol] at hbefore
  have hinner : ∀ j l, b.start ≤ j → j < i → body[j]? = some l → isBoundary false l = false := by
    intro j l hle hj hl
    have hin : b.Contains j := ⟨hle, by have := b.le_stop; omega⟩
    have hl' := hblock.inner j l hin (by omega) hl
    rwa [not_isCommentOnly_of_control hcontrol] at hl'
  have hlength : i < body.length := (List.getElem?_eq_some_iff.mp hline).1
  -- a block that ends right before this one has comments
  have hcomment : ∀ l, 0 < b.start → body[b.start - 1]? = some l →
      (∃ a ∈ blocks, a.stop + 1 = b.start) → isCommentOnly l := by
    rintro l hpos hl ⟨a, ha, hstop⟩
    obtain ⟨next, hnext⟩ := exists_getElem? (hlt.trans hlength)
    rw [← hstop, Nat.add_sub_cancel] at hl
    refine h.isCommentOnly_stop ha hl ?_ (hinner _ next le_rfl hlt hnext)
    rw [hstop, hnext]
  refine ⟨hlt, ⟨_, hline, hblock.mentions_seed⟩, fun j l hle hj hl => ⟨?_, ?_⟩, fun l hpos hl => ?_⟩
  · exact isInner_false_iff.mpr (hinner j l hle hj hl)
  · by_contra hmentions
    obtain ⟨a, -, hstop, hstart⟩ := h.first b hb j l (hseed ▸ hj) hl (by simpa using hmentions)
    omega
  · rcases hbefore l hpos hl with hboundary | hends
    · refine ⟨hboundary, ?_⟩
      by_cases hmentions : mentions l
      · obtain ⟨a, ⟨ha, hcontains⟩, -⟩ := h.covers _ l hl hmentions
        have hstop := h.stop_lt ha hb hcontains (by omega)
        exact .inl (hcomment l hpos hl ⟨a, ha, by have := hcontains.2; omega⟩)
      · exact .inr (by simpa using hmentions)
    · have hl' := hcomment l hpos hl hends
      exact ⟨isBoundary_of_comment hl', .inl hl'⟩

omit hline hcontrol in
theorem Draws.not_stop (hdraws : Draws mentions body start i) {a : Interval} (ha : a ∈ blocks)
    (hle : start ≤ a.stop) (hlt : a.stop < i) : False := by
  obtain ⟨seed, hblock, -⟩ := h.isBlock a ha
  obtain ⟨last, hlast⟩ := exists_getElem? (h.within a ha)
  have hstart := a.start_le
  have hstop := a.le_stop
  obtain ⟨hinner, -⟩ := hdraws.between _ last hle hlt hlast
  have hcode : isCommentOnly seed = false := by
    rw [← hblock.isCommentOnly_eq ⟨hstart.trans hstop, le_rfl⟩ hlast]
    exact isCommentOnly_of_not_isBoundary (isInner_false_iff.mp hinner)
  have hmentions := hblock.mentions_seed
  rcases Nat.lt_or_ge a.seed start with hbefore | hbehind
  -- the block has come over the boundary before the lines
  · obtain ⟨l, hl⟩ := exists_getElem? (show start - 1 < body.length by have := h.within a ha; omega)
    have hcontains : a.Contains (start - 1) := ⟨by omega, by omega⟩
    obtain ⟨hboundary, hother⟩ := hdraws.before l (by omega) hl
    by_cases hat : start - 1 = a.seed
    · obtain rfl : l = seed := Option.some.inj (hl.symm.trans (hat ▸ hblock.at_seed))
      rw [hcode, hmentions] at hother
      rcases hother with hother | hother <;> cases hother
    · have hinner' := hblock.inner _ l hcontains hat hl
      rw [hcode, hboundary] at hinner'
      cases hinner'
  · rw [(hdraws.between _ seed hbehind (by omega) hblock.at_seed).2] at hmentions
    cases hmentions

/-- **The lines that are drawn in belong to the block of the line of control flow.** -/
theorem Draws.exists_block (hdraws : Draws mentions body start i) :
    ∃ b ∈ blocks, b.seed = i ∧ b.start = start := by
  obtain ⟨line', hline', hmentions⟩ := hdraws.at_line
  obtain rfl : line' = line := Option.some.inj (hline'.symm.trans hline)
  obtain ⟨b, ⟨hb, hcontains⟩, -⟩ := h.covers i line' hline hmentions
  have hseed := h.eq_seed hb hcontains hline hcontrol
  have hlength : i < body.length := (List.getElem?_eq_some_iff.mp hline).1
  have hlt := hdraws.lt
  have hstart := b.start_le
  have hstop := b.le_stop
  obtain ⟨seed, hblock, hfront⟩ := h.isBlock b hb
  obtain rfl : seed = line' := by
    have hat := hblock.at_seed
    rw [hseed, hline] at hat
    exact (Option.some.inj hat).symm
  rw [not_isCommentOnly_of_control hcontrol] at hfront
  refine ⟨b, hb, hseed, ?_⟩
  rcases Nat.lt_trichotomy b.start start with hless | heq | hgreater
  -- the block would have come over the boundary before the lines
  · obtain ⟨l, hl⟩ := exists_getElem? (show start - 1 < body.length by omega)
    have hinner := hblock.inner _ l ⟨by omega, by omega⟩ (by omega) hl
    rw [not_isCommentOnly_of_control hcontrol, (hdraws.before l (by omega) hl).1] at hinner
    cases hinner
  · exact heq
  · obtain ⟨l, hl⟩ := exists_getElem? (show b.start - 1 < body.length by omega)
    obtain ⟨hinner, -⟩ := hdraws.between _ l (by omega) (by omega) hl
    rcases hfront l (by omega) hl with hboundary | ⟨a, ha, hends⟩
    · rw [isInner_false_iff.mp hinner] at hboundary
      cases hboundary
    · exact absurd (hdraws.not_stop h ha (by omega) (by omega)) id

end

/-! ### The columns of the lines that are drawn in -/

variable {r : Renaming}

theorem segmentsFrom_of_findFrom {find : Text.Finder Text} : ∀ {t : Text} {prev : Option Char} {n : ℕ},
    Text.findFrom find prev n t = none → Text.segmentsFrom find prev 0 t = t.map .inl
  | [], _, _, _ => rfl
  | c :: cs, prev, n, h => by
    rw [Text.findFrom] at h
    rw [Text.segmentsFrom]
    cases hfind : find prev (c :: cs) with
    | some found => rw [hfind] at h; cases h
    | none =>
      rw [hfind] at h
      exact congrArg (Sum.inl c :: ·) (segmentsFrom_of_findFrom h)

theorem resolveLine_of_not_mentions (h : r.mentionsTable line = false) :
    r.resolveLine line = .ok (line.map .inl) := by
  rw [mentionsTable, Option.isSome_eq_false_iff, Option.isNone_iff_eq_none] at h
  rw [resolveLine, Text.segments, segmentsFrom_of_findFrom h, mapM_eq_ok_iff,
    forall₂_map_left_iff, forall₂_map_right_iff]
  exact forall₂_same.mpr fun _ _ => rfl

theorem writeLine_map_inl (line : Text) : r.writeLine (line.map .inl) = line := by
  rw [writeLine, flatMap_map]
  simp

theorem tablesIn_append (front : List Text) (back : List (List (Char ⊕ NewTable))) :
    tablesIn (front.map (·.map .inl) ++ back) = tablesIn back := by
  rw [tablesIn, tablesIn, flatten_append, filterMap_append]
  congr 1
  rw [append_left_eq_self, filterMap_eq_nil_iff]
  intro c hc
  obtain ⟨line, hline, hc⟩ := mem_flatten.mp hc
  obtain ⟨t, -, rfl⟩ := mem_map.mp hline
  obtain ⟨d, -, rfl⟩ := mem_map.mp hc
  rfl

/-- **The first lines of a block that mention no table get the columns of the tables behind them.** -/
theorem BlockRenamed.front {front back lines : List Text} (h : r.BlockRenamed (front ++ back) lines)
    (hnone : ∀ line ∈ front, r.mentionsTable line = false) :
    ∃ resolved, back.mapM r.resolveLine = .ok resolved ∧ lines.take front.length =
      front.map (renameColumns ((tablesIn resolved).flatMap r.renamedColumns)) := by
  obtain ⟨resolved, hresolved, rfl⟩ := h
  obtain ⟨plain, resolved, rfl, hplain, hback⟩ := exists_append_of_forall₂ (mapM_eq_ok_iff.mp hresolved)
  have hmap : plain = front.map (·.map .inl) := by
    have hfront : front.mapM r.resolveLine = .ok (front.map (·.map .inl)) := by
      rw [mapM_eq_ok_iff, forall₂_map_right_iff]
      exact forall₂_same.mpr fun line hline => resolveLine_of_not_mentions (hnone line hline)
    rw [mapM_eq_ok_iff.mpr hplain] at hfront
    exact Except.ok.inj hfront
  subst hmap
  refine ⟨resolved, mapM_eq_ok_iff.mpr hback, ?_⟩
  rw [tablesIn_append, writeBlock, map_append, map_map, take_left' (by simp)]
  refine map_congr_left fun line _ => ?_
  rw [Function.comp_apply, writeLine_map_inl]

theorem Interval.getElem?_slice (b : Interval) (lines : List Text) {j : ℕ} (hle : b.start ≤ j)
    (hj : j ≤ b.stop) : (b.slice lines)[j - b.start]? = lines[j]? := by
  rw [slice, getElem?_take_of_lt (by omega), getElem?_drop, Nat.add_sub_cancel' hle]

/-- **The lines of a block before its seed get the columns of the tables from the seed on.** -/
theorem BlockRenamed.before_seed {b : Interval} {lines : List Text}
    (h : r.BlockRenamed (b.slice body) (b.slice lines)) (hwithin : b.stop < body.length)
    (hnone : ∀ j line, b.start ≤ j → j < b.seed → body[j]? = some line → r.mentionsTable line = false) :
    ∃ resolved, ((b.slice body).drop (b.seed - b.start)).mapM r.resolveLine = .ok resolved ∧
      ∀ j, b.start ≤ j → j < b.seed → lines[j]? =
        body[j]?.map (renameColumns ((tablesIn resolved).flatMap r.renamedColumns)) := by
  have hstart := b.start_le
  have hstop := b.le_stop
  rw [← take_append_drop (b.seed - b.start) (b.slice body)] at h
  obtain ⟨resolved, hresolved, hfront⟩ := h.front fun line hline => by
    obtain ⟨k, hk⟩ := mem_iff_getElem?.mp hline
    rw [getElem?_take] at hk
    split_ifs at hk with hlt
    refine hnone (b.start + k) line (by omega) (by omega) ?_
    rw [← b.getElem?_slice body (by omega) (by omega), Nat.add_sub_cancel_left, hk]
  have hlength : ((b.slice body).take (b.seed - b.start)).length = b.seed - b.start := by
    rw [length_take, Interval.slice, length_take, length_drop]
    omega
  rw [hlength] at hfront
  refine ⟨resolved, hresolved, fun j hle hj => ?_⟩
  have hget := congrArg (·[j - b.start]?) hfront
  simp only [getElem?_map] at hget
  rwa [getElem?_take_of_lt (by omega), getElem?_take_of_lt (by omega),
    b.getElem?_slice lines hle (by omega), b.getElem?_slice body hle (by omega)] at hget

/-! ### The lines before a line of control flow -/

section

variable {kept start inner rest : List Text} {seed : Text} (h : Cut mentions body kept start seed inner rest)
include h

theorem Cut.take (j : ℕ) :
    Cut mentions (body.take (Cut.size kept start inner + j)) kept start seed inner (rest.take j) where
  eq := by
    have hsize : (kept ++ (start ++ seed :: inner)).length = Cut.size kept start inner := by
      simp only [length_append, length_cons, Cut.size]
      omega
    rw [h.eq, ← hsize, take_length_add_append]
  mentions_seed := h.mentions_seed
  before := h.before
  start_inner := h.start_inner
  inner_inner := h.inner_inner
  kept_last := h.kept_last
  rest_head line hline := by
    refine h.rest_head line ?_
    cases j with
    | zero => cases hline
    | succ j => rwa [head?_take, if_neg (by simp)] at hline

theorem Cut.draws_seed (hcontrol : startsControl seed) (hstart : start ≠ []) :
    Draws mentions body kept.length (kept.length + start.length) := by
  have hcode := not_isCommentOnly_of_control hcontrol
  have hpos := length_pos_iff.mpr hstart
  refine ⟨by omega, ⟨seed, h.isBlock_interval.at_seed, h.mentions_seed⟩, ?_, ?_⟩
  · intro j line hle hlt hline
    rcases h.getElem?_cases hline with ⟨hlt', -⟩ | ⟨-, -, hin⟩ | ⟨rfl, -⟩ | ⟨hgt, -⟩ | ⟨k, rfl, -⟩
    · omega
    · exact ⟨hcode ▸ h.start_inner line hin, h.before line (mem_append_right kept hin)⟩
    · omega
    · omega
    · unfold Cut.size at hlt
      omega
  · intro line hpos hline
    refine ⟨hcode ▸ h.isBoundary_before hpos hline, .inr (h.before line (mem_append_left _ ?_))⟩
    rw [h.eq, append_assoc, getElem?_append_left (by omega)] at hline
    exact mem_of_getElem? hline

/-- **What is drawn in from the rest is drawn in from the body.** -/
theorem Cut.draws_rest {first j : ℕ} (hdraws : Draws mentions rest first j) :
    Draws mentions body (Cut.size kept start inner + first) (Cut.size kept start inner + j) := by
  obtain ⟨hlt, ⟨line, hline, hmentions⟩, hbetween, hbefore⟩ := hdraws
  refine ⟨by omega, ⟨line, (h.getElem?_rest j).trans hline, hmentions⟩, ?_, ?_⟩
  · intro k l hle hk hl
    obtain ⟨k, rfl⟩ := Nat.exists_eq_add_of_le (Nat.le_of_add_right_le hle)
    rw [h.getElem?_rest] at hl
    exact hbetween k l (by omega) (by omega) hl
  · intro l hpos hl
    rcases Nat.eq_zero_or_pos first with rfl | hfirst
    -- the line before is the last one of a block of comments, since the line behind it is code
    · have hlength : j < rest.length := (List.getElem?_eq_some_iff.mp hline).1
      obtain ⟨next, hnext⟩ := exists_getElem? (hlt.trans hlength)
      have hinner := (hbetween 0 next le_rfl hlt hnext).1
      have hcomment : isCommentOnly seed := by
        by_contra hcode
        have hhead := h.rest_head next (by rw [head?_eq_getElem?, hnext]; rfl)
        rw [Bool.not_eq_true] at hcode
        rw [hcode, hinner] at hhead
        cases hhead
      have hcontains : (Cut.interval kept start inner).Contains (Cut.size kept start inner + 0 - 1) := by
        refine Cut.contains_interval_iff.mpr ⟨?_, ?_⟩ <;> unfold Cut.size <;> omega
      rw [← h.isBlock_interval.isCommentOnly_eq hcontains hl] at hcomment
      exact ⟨isBoundary_of_comment hcomment, .inl hcomment⟩
    · rw [Nat.add_sub_assoc hfirst, h.getElem?_rest] at hl
      exact hbefore l hfirst hl

end

/-- What kept lines and a block in front of other portions come to. -/
theorem renamePortions_block_eq_ok_iff {cache : ColumnCache} {kept block lines : List Text}
    {ps : List Portion} :
    (r.renamePortions cache (.kept kept :: .block block :: ps)).result = .ok lines ↔
      ∃ first others, (r.renameBlock cache block).result = .ok first ∧
        (r.renamePortions (r.renameBlock cache block).columns ps).result = .ok others ∧
        kept ++ (first ++ others) = lines := by
  simp only [renamePortions, renamePortion]
  cases hblock : (r.renameBlock cache block).result with
  | error fault => simp [Except.map]
  | ok first =>
    cases (r.renamePortions (r.renameBlock cache block).columns ps).result with
    | error fault => simp [Except.map]
    | ok others =>
      simp only [Except.map, Except.ok.injEq, exists_and_left, exists_eq_left']

/-- **The lines before a line of control flow that draws in nothing come to what they come to without it.** -/
theorem renamePortions_take (body : List Text) : ∀ {cache : ColumnCache} {lines : List Text},
    r.Coherent cache → (r.renamePortions cache (portions mentions body)).result = .ok lines →
    ∀ {i : ℕ} {line : Text}, body[i]? = some line → startsControl line →
      (∀ start, ¬Draws mentions body start i) →
      (r.renamePortions cache (portions mentions (body.take i))).result = .ok (lines.take i) := by
  refine portions_induction (P := fun body portions' => ∀ {cache : ColumnCache} {lines : List Text},
    r.Coherent cache → (r.renamePortions cache portions').result = .ok lines →
    ∀ {i : ℕ} {line : Text}, body[i]? = some line → startsControl line →
      (∀ start, ¬Draws mentions body start i) →
      (r.renamePortions cache (portions mentions (body.take i))).result = .ok (lines.take i)) ?_ ?_ body
  · intro body hnone cache lines _ h i line _ _ _
    have htake : ∀ line ∈ body.take i, mentions line = false :=
      fun line hline => hnone line (mem_of_mem_take hline)
    simp only [renamePortions, renamePortion, Except.map, append_nil] at h
    obtain rfl := Except.ok.inj h
    rw [portions_of_none htake]
    simp [renamePortions, renamePortion, Except.map]
  · intro body kept start seed inner rest hcut ih cache lines hcache h i line hline hcontrol hdraws
    obtain ⟨first, others, hfirst, hothers, rfl⟩ := renamePortions_block_eq_ok_iff.mp h
    obtain ⟨hrenamed, -, hcache'⟩ := renameBlock_of_ok hcache hfirst
    have hnot : ∀ comments, isInner comments line ≠ true := fun comments hinner => by
      rw [isInner_of_control hcontrol] at hinner
      cases hinner
    -- up to the seed there are only lines that are kept
    have hkept : ∀ n ≤ kept.length, body.take n = kept.take n →
        (r.renamePortions cache (portions mentions (body.take n))).result =
          .ok ((kept ++ (first ++ others)).take n) := by
      intro n hn hbody
      have hnone : ∀ line ∈ kept.take n, mentions line = false := fun line hline =>
        hcut.before line (mem_append_left start (mem_of_mem_take hline))
      rw [hbody, portions_of_none hnone, take_append_of_le_length hn]
      simp [renamePortions, renamePortion, Except.map]
    have hbody : ∀ n ≤ kept.length, body.take n = kept.take n := by
      intro n hn
      rw [hcut.eq, append_assoc, take_append_of_le_length hn]
    rcases hcut.getElem?_cases hline with ⟨hlt, -⟩ | ⟨-, -, hin⟩ | ⟨rfl, rfl⟩ | ⟨-, -, hin⟩ | ⟨j, rfl, hj⟩
    · exact hkept i hlt.le (hbody i hlt.le)
    · exact absurd (hcut.start_inner line hin) (hnot _)
    · have hstart : start = [] := by
        by_contra hne
        exact hdraws _ (hcut.draws_seed hcontrol hne)
      rw [hstart, length_nil, Nat.add_zero]
      exact hkept _ le_rfl (hbody _ le_rfl)
    · exact absurd (hcut.inner_inner line hin) (hnot _)
    · have hsize : (kept ++ first).length = Cut.size kept start inner := by
        rw [length_append, hrenamed.length_eq, Cut.size]
        simp only [length_append, length_cons]
        omega
      have hrest := ih hcache' hothers hj hcontrol fun start hrest => hdraws _ (hcut.draws_rest hrest)
      rw [portions_of_cut (hcut.take j), renamePortions_block_eq_ok_iff]
      refine ⟨first, _, hfirst, hrest, ?_⟩
      rw [← append_assoc, ← append_assoc, ← hsize, take_length_add_append]

/-- **Lines of control flow in a renamed body.** A line of control flow belongs to at most one block, the one
that is spread out from it. It is the first line of this block unless it draws in lines before it; these
get the columns of the tables that are mentioned from the line of control flow on. If it draws in
nothing, the lines before it are renamed as if it and all that follows were not there. -/
theorem renameBody_control (r : Renaming) (earlier : List (List Text)) (body lines : List Text)
    (h : (r.renameBody (r.columnsAfter earlier) body).result = .ok lines) :
    ∃ blocks, Partition r.mentionsTable body blocks ∧
      r.RenamedIn blocks body lines (r.renameBody (r.columnsAfter earlier) body).notes ∧
      ∀ i line, body[i]? = some line → startsControl line = true →
        (∀ b ∈ blocks, b.Contains i → b.seed = i) ∧
        (∀ start < i, (∃ b ∈ blocks, b.seed = i ∧ b.start = start) ↔
          Draws r.mentionsTable body start i) ∧
        (∀ b ∈ blocks, b.seed = i → ∃ resolved,
          ((b.slice body).drop (i - b.start)).mapM r.resolveLine = .ok resolved ∧
            ∀ j, b.start ≤ j → j < i → lines[j]? =
              body[j]?.map (renameColumns ((tablesIn resolved).flatMap r.renamedColumns))) ∧
        ((∀ start, ¬Draws r.mentionsTable body start i) →
          (r.renameBody (r.columnsAfter earlier) (body.take i)).result = .ok (lines.take i)) := by
  have hcache := coherent_columnsAfter r earlier
  obtain ⟨blocks, hpartition, hin⟩ := renamePortions_partition body hcache h
  refine ⟨blocks, hpartition, hin, fun i line hline hcontrol => ⟨?_, ?_, ?_, ?_⟩⟩
  · exact fun b hb hcontains => hpartition.eq_seed hb hcontains hline hcontrol
  · refine fun start hlt => ⟨?_, fun hdraws => hdraws.exists_block hpartition hline hcontrol⟩
    rintro ⟨b, hb, hseed, rfl⟩
    exact hpartition.draws hline hcontrol hb hseed hlt
  · rintro b hb rfl
    refine (hin.inside b hb).before_seed (hpartition.within b hb) fun j l hle hlt hl => ?_
    have hdraws := hpartition.draws hline hcontrol hb rfl (hle.trans_lt hlt)
    exact (hdraws.between j l hle hlt hl).2
  · exact renamePortions_take body hcache h hline hcontrol

/-- A condition draws in the line before it: its column is renamed for the sake of a table that is
mentioned in the condition only. -/
theorem renameBody_control_condition :
    let body := ["SELECT State".toList, "If Exists (SELECT * FROM T_Jobs) Then".toList]
    let lines := ["SELECT state".toList, "If Exists (SELECT * FROM sw.t_jobs) Then".toList]
    let renamed := jobsRenaming.renameBody (jobsRenaming.columnsAfter []) body
    renamed.result = .ok lines ∧ startsControl "If Exists (SELECT * FROM T_Jobs) Then".toList = true ∧
      ∃ blocks, Partition jobsRenaming.mentionsTable body blocks ∧
        ∃ b ∈ blocks, b.seed = 1 ∧ b.start = 0 := by
  intro body lines renamed
  have hmentions : jobsRenaming.mentionsTable "SELECT State".toList = false ∧
      jobsRenaming.mentionsTable "If Exists (SELECT * FROM T_Jobs) Then".toList = true := by
    unfold mentionsTable
    rw [finder_jobs]
    decide +kernel
  have hportions : portions jobsRenaming.mentionsTable body = [.kept [], .block body, .kept []] := by
    unfold mentionsTable
    rw [finder_jobs]
    decide +kernel
  have hresult : renamed.result = .ok lines := by
    dsimp only [renamed, renameBody]
    rw [hportions]
    cbv
  have hcontrol : startsControl "If Exists (SELECT * FROM T_Jobs) Then".toList = true := by decide
  have hdraws : Draws jobsRenaming.mentionsTable body 0 1 := by
    refine ⟨by omega, ⟨_, rfl, hmentions.2⟩, fun j line _ hj hline => ?_, fun line hpos => by omega⟩
    obtain rfl : j = 0 := by omega
    obtain rfl : "SELECT State".toList = line := Option.some.inj hline
    exact ⟨by decide, hmentions.1⟩
  obtain ⟨blocks, hpartition, -, hlines⟩ := renameBody_control jobsRenaming [] body lines hresult
  exact ⟨hresult, hcontrol, blocks, hpartition,
    ((hlines 1 _ rfl hcontrol).2.1 0 (by omega)).mpr hdraws⟩

end SqlRoutine.Renaming
