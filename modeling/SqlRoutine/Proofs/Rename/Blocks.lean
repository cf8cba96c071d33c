import Mathlib
import SqlRoutine.Proofs.Rename.Cache
import SqlRoutine.Proofs.Text.Scan

/-! # The blocks of a body

A body is cut into blocks around the lines that mention a table. As intervals of line numbers
(`Interval`) the blocks **partition the lines that mention a table** (`Partition`): they are disjoint and
in order, each is spread out from its seed to the next boundary on either side, and no line that mentions
a table is left out. In a renaming without a fault the lines outside stay as they are, and each block is
rewritten once, by the tables that it mentions itself (`renameBody_partition`).

`portions` takes off the lines up to the end of the first block and goes on with the rest, so everything
is shown by `portions_induction`: about a body without a block, and about a `Cut` in front of a rest of
which it is known already. -/

namespace SqlRoutine.Renaming

open Code List

variable {block inner kept lines rest start : List Text} {line seed : Text} {i : ℕ}

variable {mentions : Text → Bool} {body : List Text}

/-! ### The first block -/

/-- **The lines up to the end of the first block**, and the rest: `seed` is the first line that mentions
a table, and the block is spread out from it as far as it can be. -/
structure Cut (mentions : Text → Bool) (body kept start : List Text) (seed : Text)
    (inner rest : List Text) : Prop where
  eq : body = kept ++ (start ++ seed :: inner) ++ rest
  mentions_seed : mentions seed
  before : ∀ line ∈ kept ++ start, mentions line = false
  start_inner : ∀ line ∈ start, isInner (isCommentOnly seed) line
  inner_inner : ∀ line ∈ inner, isInner (isCommentOnly seed) line
  kept_last : ∀ line ∈ kept.getLast?, isInner (isCommentOnly seed) line = false
  rest_head : ∀ line ∈ rest.head?, isInner (isCommentOnly seed) line = false

theorem portions_of_none (h : ∀ line ∈ body, mentions line = false) :
    portions mentions body = [.kept body] := by
  have hnil : body.dropWhile (fun line => !mentions line) = [] :=
    dropWhile_eq_nil_iff.mpr fun line hline => by rw [h line hline]; rfl
  rw [portions]
  split
  · rfl
  · next hseed =>
    rw [hnil] at hseed
    cases hseed

/-- The ending that is split off is as long as it can be. -/
theorem splitEnding_append {p : Text → Bool}
    (hstart : ∀ line ∈ start, p line) (hkept : ∀ line ∈ kept.getLast?, p line = false) :
    splitEnding p (kept ++ start) = (kept, start) := by
  have hhead : kept.reverse.head?.all (fun line => !p line) := by
    rw [head?_reverse]
    cases hlast : kept.getLast? with
    | none => rfl
    | some line => simp [hkept line hlast]
  have hall : start.reverse.all p := by simpa using hstart
  unfold splitEnding
  dsimp only
  rw [reverse_append, (Text.run_append hall hhead).1, reverse_reverse, length_append,
    Nat.add_sub_cancel, take_left]

/-- **The portions of a body start with those of its first block.** -/
theorem portions_of_cut (h : Cut mentions body kept start seed inner rest) :
    portions mentions body = .kept kept :: .block (start ++ seed :: inner) :: portions mentions rest := by
  have hbody : body = (kept ++ start) ++ seed :: (inner ++ rest) := by
    rw [h.eq, append_assoc, append_assoc, append_assoc, cons_append]
  have hpassed : (kept ++ start).all (fun line => !mentions line) := by
    refine all_eq_true.mpr fun line hline => ?_
    rw [h.before line hline]
    rfl
  obtain ⟨htake, hdrop⟩ := Text.run_append (z := seed :: (inner ++ rest)) hpassed
    (by simp [h.mentions_seed])
  have hrest : rest.head?.all (fun line => !isInner (isCommentOnly seed) line) := by
    cases hhead : rest.head? with
    | none => rfl
    | some line => simp [h.rest_head line hhead]
  obtain ⟨hinner, hafter⟩ := Text.run_append (all_eq_true.mpr h.inner_inner) hrest
  rw [portions, hbody]
  split
  · next hnil =>
    rw [hdrop] at hnil
    cases hnil
  · next seed' after hseed =>
    rw [hdrop] at hseed
    obtain ⟨rfl, rfl⟩ := List.cons.inj hseed
    dsimp only
    rw [htake, splitEnding_append h.start_inner h.kept_last, hinner, hafter]

/-- Nothing is mentioned, or there is a first block. -/
theorem exists_cut (mentions : Text → Bool) (body : List Text) :
    (∀ line ∈ body, mentions line = false) ∨
      ∃ kept start seed inner rest, Cut mentions body kept start seed inner rest := by
  have hbody := takeWhile_append_dropWhile (p := fun line => !mentions line) (l := body)
  have hpassed : ∀ line ∈ body.takeWhile fun line => !mentions line, mentions line = false := by
    intro line hline
    simpa using mem_takeWhile_imp hline
  cases hseed : body.dropWhile fun line => !mentions line with
  | nil =>
    rw [hseed, append_nil] at hbody
    rw [hbody] at hpassed
    exact .inl hpassed
  | cons seed after =>
    right
    have hmentions : mentions seed := by
      have hhead := head?_dropWhile_not (fun line => !mentions line) body
      rw [hseed] at hhead
      simpa using hhead
    rw [hseed] at hbody
    generalize body.takeWhile (fun line => !mentions line) = passed at hbody hpassed
    generalize hp : isInner (isCommentOnly seed) = p
    have hsplit := rdropWhile_append_rtakeWhile (p := p) (l := passed)
    have hafter := takeWhile_append_dropWhile (p := p) (l := after)
    refine ⟨passed.rdropWhile p, passed.rtakeWhile p, seed, after.takeWhile p, after.dropWhile p, ?_⟩
    refine ⟨?_, hmentions, by rwa [hsplit], ?_, ?_, ?_, ?_⟩
    · rw [append_assoc, append_assoc, cons_append, hafter, ← append_assoc, hsplit,
        hbody]
    · exact fun line hline => hp ▸ mem_rtakeWhile_imp hline
    · exact fun line hline => hp ▸ mem_takeWhile_imp hline
    · intro line hline
      obtain ⟨hne, rfl⟩ := mem_getLast?_eq_getLast hline
      rw [hp, ← Bool.not_eq_true]
      exact rdropWhile_last_not p _ hne
    · intro line hline
      have hhead := head?_dropWhile_not p after
      rw [Option.mem_def.mp hline] at hhead
      rw [hp]
      simpa using hhead

/-- **The portions of a body, step by step**: nothing is mentioned, or the first block is cut off. -/
theorem portions_induction {P : List Text → List Portion → Prop}
    (none : ∀ body, (∀ line ∈ body, mentions line = false) → P body [.kept body])
    (cut : ∀ body kept start seed inner rest, Cut mentions body kept start seed inner rest →
      P rest (portions mentions rest) →
        P body (.kept kept :: .block (start ++ seed :: inner) :: portions mentions rest))
    (body : List Text) : P body (portions mentions body) := by
  induction hn : body.length using Nat.strong_induction_on generalizing body with
  | _ n ih =>
    subst hn
    rcases exists_cut mentions body with hnone | ⟨kept, start, seed, inner, rest, hcut⟩
    · rw [portions_of_none hnone]
      exact none body hnone
    · rw [portions_of_cut hcut]
      refine cut _ _ _ _ _ _ hcut (ih rest.length ?_ rest rfl)
      have hlength := congrArg List.length hcut.eq
      simp only [length_append, length_cons] at hlength
      omega

/-! ### Intervals of lines -/

/-- **An interval of line numbers** around its seed. -/
structure Interval where
  start : ℕ
  seed : ℕ
  stop : ℕ
  start_le : start ≤ seed
  le_stop : seed ≤ stop

namespace Interval

/-- The line number lies in the interval. -/
def Contains (b : Interval) (i : ℕ) : Prop := b.start ≤ i ∧ i ≤ b.stop

/-- The lines of the interval. -/
def slice (b : Interval) (lines : List Text) : List Text :=
  (lines.drop b.start).take (b.stop + 1 - b.start)

/-- The same interval when `k` lines are put in front. -/
def shift (k : ℕ) (b : Interval) : Interval where
  start := k + b.start
  seed := k + b.seed
  stop := k + b.stop
  start_le := Nat.add_le_add_left b.start_le k
  le_stop := Nat.add_le_add_left b.le_stop k

theorem slice_shift (b : Interval) {front : List Text} {k : ℕ} (hk : front.length = k) :
    (b.shift k).slice (front ++ lines) = b.slice lines := by
  have hwidth : k + b.stop + 1 - (k + b.start) = b.stop + 1 - b.start := by omega
  unfold slice shift
  dsimp only
  rw [hwidth, ← drop_drop, drop_left' hk]

end Interval

/-- **The interval is a block of the body** with the given line as its seed: its other lines are no
boundaries, and the line after it is one. -/
structure Interval.IsBlock (b : Interval) (mentions : Text → Bool) (body : List Text) (seed : Text) :
    Prop where
  at_seed : body[b.seed]? = some seed
  mentions_seed : mentions seed
  inner : ∀ i line, b.Contains i → i ≠ b.seed → body[i]? = some line →
    isBoundary (isCommentOnly seed) line = false
  next : ∀ line, body[b.stop + 1]? = some line → isBoundary (isCommentOnly seed) line

/-- **The blocks partition the lines that mention a table.** -/
structure Partition (mentions : Text → Bool) (body : List Text) (blocks : List Interval) : Prop where
  ordered : blocks.Pairwise fun a b => a.stop < b.start
  within : ∀ b ∈ blocks, b.stop < body.length
  /-- A line that mentions a table lies in exactly one block. -/
  covers : ∀ i line, body[i]? = some line → mentions line → ∃! b, b ∈ blocks ∧ b.Contains i
  isBlock : ∀ b ∈ blocks, ∃ seed, b.IsBlock mentions body seed ∧
    -- the line before the block
    ∀ line, 0 < b.start → body[b.start - 1]? = some line →
      isBoundary (isCommentOnly seed) line ∨ ∃ a ∈ blocks, a.stop + 1 = b.start
  /-- The seed is the first line that mentions a table after the blocks before. -/
  first : ∀ b ∈ blocks, ∀ i line, i < b.seed → body[i]? = some line → mentions line →
    ∃ a ∈ blocks, i ≤ a.stop ∧ a.stop < b.start

/-! ### The first block and the rest -/

namespace Cut

variable {kept start inner rest : List Text} {seed : Text}

/-- The line numbers of the first block. -/
def interval (kept start inner : List Text) : Interval where
  start := kept.length
  seed := kept.length + start.length
  stop := kept.length + start.length + inner.length
  start_le := Nat.le_add_right ..
  le_stop := Nat.le_add_right ..

/-- How many lines there are up to the end of the first block. -/
def size (kept start inner : List Text) : ℕ := kept.length + start.length + inner.length + 1

theorem contains_interval_iff : (interval kept start inner).Contains i ↔
    kept.length ≤ i ∧ i < size kept start inner := by
  rw [Interval.Contains, size, Nat.lt_succ_iff]
  rfl

variable (h : Cut mentions body kept start seed inner rest)
include h

/-- Where a line of the body stands. -/
theorem getElem?_cases (hi : body[i]? = some line) :
    (i < kept.length ∧ kept[i]? = some line) ∨
      (kept.length ≤ i ∧ i < kept.length + start.length ∧ line ∈ start) ∨
      (i = kept.length + start.length ∧ line = seed) ∨
      (kept.length + start.length < i ∧ i < size kept start inner ∧ line ∈ inner) ∨
      ∃ j, i = size kept start inner + j ∧ rest[j]? = some line := by
  unfold size
  rw [h.eq] at hi
  rcases Nat.lt_or_ge i (kept ++ (start ++ seed :: inner)).length with hlt | hge
  · rw [getElem?_append_left hlt] at hi
    simp only [length_append, length_cons] at hlt
    rcases Nat.lt_or_ge i kept.length with hkept | hkept
    · rw [getElem?_append_left hkept] at hi
      exact .inl ⟨hkept, hi⟩
    · rw [getElem?_append_right hkept] at hi
      rcases Nat.lt_or_ge (i - kept.length) start.length with hstart | hstart
      · rw [getElem?_append_left hstart] at hi
        exact .inr (.inl ⟨hkept, by omega, mem_of_getElem? hi⟩)
      · rw [getElem?_append_right hstart] at hi
        rcases hj : i - kept.length - start.length with _ | j
        · rw [hj, getElem?_cons_zero] at hi
          exact .inr (.inr (.inl ⟨by omega, (Option.some.inj hi).symm⟩))
        · rw [hj, getElem?_cons_succ] at hi
          exact .inr (.inr (.inr (.inl ⟨by omega, by omega, mem_of_getElem? hi⟩)))
  · rw [getElem?_append_right hge] at hi
    simp only [length_append, length_cons] at hge hi
    exact .inr (.inr (.inr (.inr ⟨_, by omega, hi⟩)))

theorem length_eq : body.length = size kept start inner + rest.length := by
  rw [h.eq, size]
  simp only [length_append, length_cons]
  omega

theorem getElem?_rest (j : ℕ) : body[size kept start inner + j]? = rest[j]? := by
  have hlength : (kept ++ (start ++ seed :: inner)).length = size kept start inner := by
    simp only [length_append, length_cons, size]
    omega
  rw [h.eq, ← hlength, getElem?_append_right (Nat.le_add_right ..), Nat.add_sub_cancel_left]

/-- A line that mentions a table stands in the first block, from its seed on, or in the rest. -/
theorem mentions_cases (hi : body[i]? = some line) (hmentions : mentions line) :
    (kept.length + start.length ≤ i ∧ i < size kept start inner) ∨
      ∃ j, i = size kept start inner + j ∧ rest[j]? = some line := by
  have hbefore : line ∉ kept ++ start := fun hin => by
    rw [h.before line hin] at hmentions
    cases hmentions
  rcases h.getElem?_cases hi with ⟨-, hin⟩ | ⟨-, -, hin⟩ | ⟨rfl, -⟩ | ⟨hlt, hsize, -⟩ | hrest
  · exact absurd (mem_append_left _ (mem_of_getElem? hin)) hbefore
  · exact absurd (mem_append_right _ hin) hbefore
  · exact .inl ⟨le_rfl, by unfold size; omega⟩
  · exact .inl ⟨hlt.le, hsize⟩
  · exact .inr hrest

theorem isBlock_interval : (interval kept start inner).IsBlock mentions body seed := by
  have hseed : body[kept.length + start.length]? = some seed := by
    rw [h.eq, append_assoc, append_assoc, ← append_assoc, ← length_append]
    simp
  refine ⟨hseed, h.mentions_seed, fun i line hcontains hne hi => ?_, fun line hline => ?_⟩
  · obtain ⟨hle, hlt⟩ := contains_interval_iff.mp hcontains
    have hinner : isInner (isCommentOnly seed) line := by
      rcases h.getElem?_cases hi with ⟨hlt', -⟩ | ⟨-, -, hin⟩ | ⟨rfl, -⟩ | ⟨-, -, hin⟩ | ⟨j, rfl, -⟩
      · omega
      · exact h.start_inner line hin
      · exact absurd rfl hne
      · exact h.inner_inner line hin
      · omega
    simpa [isInner] using hinner
  · have hrest : body[(interval kept start inner).stop + 1]? = rest[0]? := h.getElem?_rest 0
    rw [hrest, ← head?_eq_getElem?] at hline
    simpa [isInner] using h.rest_head line hline

theorem isBoundary_before (hpos : 0 < kept.length) (hline : body[kept.length - 1]? = some line) :
    isBoundary (isCommentOnly seed) line := by
  have hlast : kept.getLast? = some line := by
    rw [getLast?_eq_getElem?, ← hline, h.eq, append_assoc,
      getElem?_append_left (Nat.sub_one_lt_of_lt hpos)]
  simpa [isInner] using h.kept_last line hlast

theorem isBlock_shift {b : Interval} {seed' : Text} (hb : b.IsBlock mentions rest seed') :
    (b.shift (size kept start inner)).IsBlock mentions body seed' := by
  refine ⟨(h.getElem?_rest _).trans hb.at_seed, hb.mentions_seed, ?_, fun line hline => ?_⟩
  · rintro i line ⟨hlo, hhi⟩ hne hi
    simp only [Interval.shift] at hlo hhi hne
    obtain ⟨j, rfl⟩ := Nat.exists_eq_add_of_le (Nat.le_of_add_right_le hlo)
    rw [h.getElem?_rest] at hi
    exact hb.inner j line ⟨by omega, by omega⟩ (by omega) hi
  · have hstop : (b.shift (size kept start inner)).stop + 1 =
        size kept start inner + (b.stop + 1) := rfl
    rw [hstop, h.getElem?_rest] at hline
    exact hb.next line hline

variable {blocks : List Interval} (hrest : Partition mentions rest blocks)
include hrest

/-- A line that mentions a table lies in the first block or in exactly one of the rest. -/
theorem covers (hi : body[i]? = some line) (hmentions : mentions line) :
    ∃! b, b ∈ interval kept start inner :: blocks.map (Interval.shift (size kept start inner)) ∧
      b.Contains i := by
  rcases h.mentions_cases hi hmentions with ⟨hle, hlt⟩ | ⟨j, rfl, hj⟩
  · refine ⟨_, ⟨mem_cons_self, contains_interval_iff.mpr ⟨by omega, hlt⟩⟩, ?_⟩
    rintro b ⟨hb, hcontains⟩
    rcases mem_cons.mp hb with rfl | hb
    · rfl
    · obtain ⟨b', -, rfl⟩ := mem_map.mp hb
      have := hcontains.1
      simp only [Interval.shift] at this
      omega
  · obtain ⟨b, ⟨hb, hcontains⟩, hunique⟩ := hrest.covers j line hj hmentions
    refine ⟨_, ⟨mem_cons_of_mem _ (mem_map_of_mem hb), ?_⟩, ?_⟩
    · exact ⟨Nat.add_le_add_left hcontains.1 _, Nat.add_le_add_left hcontains.2 _⟩
    · rintro b' ⟨hb', hcontains'⟩
      rcases mem_cons.mp hb' with rfl | hb'
      · have := (contains_interval_iff.mp hcontains').2
        omega
      · obtain ⟨b', hmem, rfl⟩ := mem_map.mp hb'
        obtain ⟨hlo, hhi⟩ := hcontains'
        simp only [Interval.shift] at hlo hhi
        rw [hunique b' ⟨hmem, by omega, by omega⟩]

/-- **The first block in front of a partition of the rest.** -/
theorem partition : Partition mentions body
    (interval kept start inner :: blocks.map (Interval.shift (size kept start inner))) := by
  have hbehind : ∀ b ∈ blocks.map (Interval.shift (size kept start inner)),
      (interval kept start inner).stop < b.start := by
    intro b hb
    obtain ⟨b', -, rfl⟩ := mem_map.mp hb
    simp only [interval, Interval.shift, size]
    omega
  refine ⟨?_, ?_, fun i line => h.covers hrest, ?_, ?_⟩
  · refine pairwise_cons.mpr ⟨hbehind, pairwise_map.mpr ?_⟩
    exact hrest.ordered.imp fun hab => Nat.add_lt_add_left hab _
  · rw [h.length_eq]
    intro b hb
    rcases mem_cons.mp hb with rfl | hb
    · simp only [interval, size]
      omega
    · obtain ⟨b', hb', rfl⟩ := mem_map.mp hb
      exact Nat.add_lt_add_left (hrest.within b' hb') _
  · intro b hb
    rcases mem_cons.mp hb with rfl | hb
    · exact ⟨seed, h.isBlock_interval, fun line hpos hline => .inl (h.isBoundary_before hpos hline)⟩
    · obtain ⟨b', hb', rfl⟩ := mem_map.mp hb
      obtain ⟨seed', hblock, hbefore⟩ := hrest.isBlock b' hb'
      refine ⟨seed', h.isBlock_shift hblock, fun line hpos hline => ?_⟩
      rcases Nat.eq_zero_or_pos b'.start with hzero | hpos'
      -- the block starts right behind the first one
      · refine .inr ⟨_, mem_cons_self, ?_⟩
        simp only [interval, Interval.shift, size, hzero]
      · have hindex : (b'.shift (size kept start inner)).start - 1 =
            size kept start inner + (b'.start - 1) := Nat.add_sub_assoc hpos' _
        rw [hindex, h.getElem?_rest] at hline
        refine (hbefore line hpos' hline).imp_right ?_
        rintro ⟨a, ha, heq⟩
        refine ⟨_, mem_cons_of_mem _ (mem_map_of_mem ha), ?_⟩
        simp only [Interval.shift, ← heq, Nat.add_assoc]
  · intro b hb i line hlt hi hmentions
    rcases mem_cons.mp hb with rfl | hb
    · simp only [interval] at hlt
      rcases h.mentions_cases hi hmentions with ⟨hle, -⟩ | ⟨j, rfl, -⟩
      · omega
      · unfold size at hlt
        omega
    · rcases h.mentions_cases hi hmentions with ⟨-, hsize⟩ | ⟨j, rfl, hj⟩
      · exact ⟨_, mem_cons_self, Nat.le_of_lt_succ hsize, hbehind b hb⟩
      · obtain ⟨b', hb', rfl⟩ := mem_map.mp hb
        obtain ⟨a, ha, hle, hlt'⟩ := hrest.first b' hb' j line (Nat.lt_of_add_lt_add_left hlt) hj
          hmentions
        exact ⟨_, mem_cons_of_mem _ (mem_map_of_mem ha), Nat.add_le_add_left hle _,
          Nat.add_lt_add_left hlt' _⟩

end Cut

theorem partition_nil (h : ∀ line ∈ body, mentions line = false) : Partition mentions body [] := by
  refine ⟨.nil, nofun, fun i line hi hmentions => ?_, nofun, nofun⟩
  rw [h line (mem_of_getElem? hi)] at hmentions
  cases hmentions

/-! ### Renaming block by block -/

variable {r : Renaming}

/-- What a list of computations comes to without a fault. -/
theorem mapM_eq_ok_iff {α β : Type} {f : α → Except Fault β} :
    ∀ {l : List α} {out : List β}, l.mapM f = .ok out ↔ List.Forall₂ (fun a b => f a = .ok b) l out
  | [], out => by
    rw [mapM_nil, forall₂_nil_left_iff]
    exact ⟨fun h => (Except.ok.inj h).symm, fun h => by rw [h]; rfl⟩
  | a :: l, out => by
    rw [mapM_cons]
    cases ha : f a with
    | error fault =>
      refine ⟨nofun, fun h => ?_⟩
      cases h with
      | cons hb _ => rw [ha] at hb; cases hb
    | ok b =>
      cases hl : l.mapM f with
      | error fault =>
        refine ⟨nofun, fun h => ?_⟩
        cases h with
        | cons _ hout => rw [mapM_eq_ok_iff.mpr hout] at hl; cases hl
      | ok bs =>
        constructor
        · intro h
          obtain rfl : b :: bs = out := Except.ok.inj h
          exact .cons ha (mapM_eq_ok_iff.mp hl)
        · intro h
          cases h with
          | cons hb hout =>
            rw [mapM_eq_ok_iff.mpr hout] at hl
            rw [ha] at hb
            cases hl
            cases hb
            rfl

/-- **The lines of a block are those of a renaming**: its columns are those of the tables that it
mentions. -/
def BlockRenamed (r : Renaming) (block lines : List Text) : Prop :=
  ∃ resolved, block.mapM r.resolveLine = .ok resolved ∧
    lines = r.writeBlock ((tablesIn resolved).flatMap r.renamedColumns) resolved

theorem BlockRenamed.length_eq (h : r.BlockRenamed block lines) : lines.length = block.length := by
  obtain ⟨resolved, hresolved, rfl⟩ := h
  rw [writeBlock, length_map, (mapM_eq_ok_iff.mp hresolved).length_eq]

theorem renameBlock_of_ok {cache : ColumnCache} (hcache : r.Coherent cache)
    (h : (r.renameBlock cache block).result = .ok lines) :
    r.BlockRenamed block lines ∧ (r.renameBlock cache block).notes = r.blockNotes lines ∧
      r.Coherent (r.renameBlock cache block).columns := by
  unfold renameBlock at h ⊢
  cases hresolved : block.mapM r.resolveLine with
  | error fault => rw [hresolved] at h; cases h
  | ok resolved =>
    rw [hresolved] at h
    obtain ⟨hcolumns, hkept⟩ := cachedColumnsOf_eq (tablesIn resolved) hcache
    obtain rfl := Except.ok.inj h
    exact ⟨⟨resolved, hresolved, by rw [hcolumns]⟩, rfl, hkept⟩

/-- **The lines outside the blocks are kept, and each block is renamed once**, in order. -/
structure RenamedIn (r : Renaming) (blocks : List Interval) (body lines : List Text)
    (notes : List Note) : Prop where
  length_eq : lines.length = body.length
  outside : ∀ i, (∀ b ∈ blocks, ¬b.Contains i) → lines[i]? = body[i]?
  inside : ∀ b ∈ blocks, r.BlockRenamed (b.slice body) (b.slice lines)
  notes_eq : notes = blocks.flatMap fun b => r.blockNotes (b.slice lines)

theorem renamedIn_nil (r : Renaming) (body : List Text) : r.RenamedIn [] body body [] :=
  ⟨rfl, fun _ _ => rfl, nofun, rfl⟩

/-- The lines of the first block. -/
theorem Cut.slice_interval (hlength : block.length = (start ++ seed :: inner).length) :
    (Cut.interval kept start inner).slice (kept ++ block ++ rest) = block := by
  have hwidth : (Cut.interval kept start inner).stop + 1 - (Cut.interval kept start inner).start =
      block.length := by
    simp only [Cut.interval, hlength, length_append, length_cons]
    omega
  rw [Interval.slice, hwidth, append_assoc]
  simp only [Cut.interval]
  rw [drop_left, take_left]

/-- **The first block is renamed, and then the rest.** -/
theorem Cut.renamedIn {blocks : List Interval} {notes : List Note}
    (h : Cut mentions body kept start seed inner rest)
    (hblock : r.BlockRenamed (start ++ seed :: inner) block)
    (hrest : r.RenamedIn blocks rest lines notes) :
    r.RenamedIn (Cut.interval kept start inner ::
        blocks.map (Interval.shift (Cut.size kept start inner)))
      body (kept ++ block ++ lines) (r.blockNotes block ++ notes) := by
  have hlength := hblock.length_eq
  have hsize : (kept ++ block).length = Cut.size kept start inner := by
    rw [length_append, hlength, Cut.size]
    simp only [length_append, length_cons]
    omega
  have hsize' : (kept ++ (start ++ seed :: inner)).length = Cut.size kept start inner := by
    rw [length_append, ← hlength, ← length_append, hsize]
  have hfirst : (Cut.interval kept start inner).slice (kept ++ block ++ lines) = block :=
    Cut.slice_interval hlength
  refine ⟨?_, fun i hi => ?_, fun b hb => ?_, ?_⟩
  · rw [h.length_eq, length_append, hsize, hrest.length_eq]
  · rcases Nat.lt_or_ge i kept.length with hlt | hge
    · rw [h.eq, append_assoc, append_assoc, getElem?_append_left hlt,
        getElem?_append_left hlt]
    · have hbehind : Cut.size kept start inner ≤ i := by
        by_contra hlt
        exact hi _ mem_cons_self (Cut.contains_interval_iff.mpr ⟨hge, Nat.lt_of_not_le hlt⟩)
      obtain ⟨j, rfl⟩ := Nat.exists_eq_add_of_le hbehind
      rw [h.getElem?_rest, ← hsize, getElem?_append_right (Nat.le_add_right ..),
        Nat.add_sub_cancel_left]
      refine hrest.outside j fun b hb hcontains => ?_
      refine hi _ (mem_cons_of_mem _ (mem_map_of_mem hb)) ?_
      exact ⟨Nat.add_le_add_left hcontains.1 _, Nat.add_le_add_left hcontains.2 _⟩
  · rcases mem_cons.mp hb with rfl | hb
    · rw [hfirst, h.eq, Cut.slice_interval rfl]
      exact hblock
    · obtain ⟨b', hb', rfl⟩ := mem_map.mp hb
      rw [b'.slice_shift hsize, h.eq, b'.slice_shift hsize']
      exact hrest.inside b' hb'
  · rw [flatMap_cons, hfirst, hrest.notes_eq, flatMap_map]
    simp only [Interval.slice_shift _ hsize]

/-- **The portions of a body are renamed one by one**: what comes out has been renamed block by block. -/
theorem renamePortions_partition (body : List Text) :
    ∀ {cache : ColumnCache} {lines : List Text}, r.Coherent cache →
      (r.renamePortions cache (portions mentions body)).result = .ok lines →
      ∃ blocks, Partition mentions body blocks ∧
        r.RenamedIn blocks body lines (r.renamePortions cache (portions mentions body)).notes := by
  refine portions_induction (P := fun body portions =>
    ∀ {cache : ColumnCache} {lines : List Text}, r.Coherent cache →
      (r.renamePortions cache portions).result = .ok lines →
      ∃ blocks, Partition mentions body blocks ∧
        r.RenamedIn blocks body lines (r.renamePortions cache portions).notes) ?_ ?_ body
  · intro body hnone cache lines _ h
    simp only [renamePortions, renamePortion, Except.map, append_nil] at h ⊢
    obtain rfl := Except.ok.inj h
    exact ⟨[], partition_nil hnone, renamedIn_nil r body⟩
  · intro body kept start seed inner rest hcut ih cache lines hcache h
    rw [renamePortions, renamePortions] at h ⊢
    simp only [renamePortion, nil_append] at h ⊢
    cases hblock : (r.renameBlock cache (start ++ seed :: inner)).result with
    | error fault => rw [hblock] at h; cases h
    | ok block =>
      rw [hblock] at h
      obtain ⟨hrenamed, hnotes, hcache'⟩ := renameBlock_of_ok hcache hblock
      dsimp only at h ⊢
      generalize hrest : r.renamePortions (r.renameBlock cache (start ++ seed :: inner)).columns
        (portions mentions rest) = others at h ⊢
      cases hothers : others.result with
      | error fault => rw [hothers] at h; cases h
      | ok lines' =>
        rw [hothers] at h
        obtain rfl := Except.ok.inj h
        obtain ⟨blocks, hpartition, hin⟩ := ih hcache' (hrest ▸ hothers)
        refine ⟨_, hcut.partition hpartition, ?_⟩
        dsimp only
        rw [hnotes, ← append_assoc, ← hrest]
        exact hcut.renamedIn hrenamed hin

/-- The columns that have been looked up after the renaming of several bodies. -/
def columnsAfter (r : Renaming) (earlier : List (List Text)) : ColumnCache :=
  earlier.foldl (fun cache body => (r.renameBody cache body).columns) []

theorem coherent_columnsAfter (r : Renaming) (earlier : List (List Text)) :
    r.Coherent (r.columnsAfter earlier) :=
  List.foldlRecOn (motive := r.Coherent) earlier _ (coherent_nil r) fun _ hcache body _ =>
    (renameBody_alike hcache hcache body).left

/-- **The blocks of a renaming partition the lines that mention a table.** Whatever bodies have been
renamed before, if a body is renamed without a fault then there are intervals of line numbers, disjoint
and in order, such that every line that mentions a table lies in exactly one of them, the first such line
behind the blocks before is the seed of the next, and each is spread out from its seed to the next
boundary on either side, or to the block before. The lines outside are kept, each block is renamed
once, with the columns of the tables that it mentions and of no others, and there are as many lines as
before. -/
theorem renameBody_partition (r : Renaming) (earlier : List (List Text)) (body lines : List Text)
    (h : (r.renameBody (r.columnsAfter earlier) body).result = .ok lines) :
    ∃ blocks, Partition r.mentionsTable body blocks ∧
      r.RenamedIn blocks body lines (r.renameBody (r.columnsAfter earlier) body).notes :=
  renamePortions_partition body (coherent_columnsAfter r earlier) h

/-- A renaming of two tables. -/
def jobsRenaming : Renaming where
  map := NameMap.ofEntries
    [⟨"T_Jobs".toList, "State".toList, "sw".toList, "t_jobs".toList, "state".toList⟩,
      ⟨"T_Job_Steps".toList, "Step_Number".toList, "sw".toList, "t_job_steps".toList, "step".toList⟩]
  schema := "public".toList
  columnLength := 4
  verbose := true

theorem finder_jobs : jobsRenaming.finder =
    tableFinder ["public".toList, "dbo".toList, "sw".toList] ["t_job_steps".toList, "t_jobs".toList] := by
  have hschemas : jobsRenaming.schemas = ["public".toList, "dbo".toList, "sw".toList] := by cbv
  have htables : jobsRenaming.map.tableNames = ["t_job_steps".toList, "t_jobs".toList] := by cbv
  rw [finder, hschemas, htables]

/-- A comment and a query are blocks of their own, before a line of control flow. -/
theorem renameBody_partition_jobs :
    let body := ["-- Check T_Jobs State".toList, "SELECT State, Step_Number".toList,
      "FROM T_Job_Steps".toList, "If State > 0 Then".toList]
    let lines := ["-- Check sw.t_jobs state".toList, "SELECT State, step".toList,
      "FROM sw.t_job_steps".toList, "If State > 0 Then".toList]
    let renamed := jobsRenaming.renameBody (jobsRenaming.columnsAfter []) body
    renamed.result = .ok lines ∧ ∃ blocks, Partition jobsRenaming.mentionsTable body blocks ∧
      jobsRenaming.RenamedIn blocks body lines renamed.notes := by
  intro body lines renamed
  have hportions : portions jobsRenaming.mentionsTable body =
      [.kept [], .block ["-- Check T_Jobs State".toList], .kept [],
        .block ["SELECT State, Step_Number".toList, "FROM T_Job_Steps".toList],
        .kept ["If State > 0 Then".toList]] := by
    unfold mentionsTable
    rw [finder_jobs]
    decide +kernel
  have hresult : renamed.result = .ok lines := by
    dsimp only [renamed, renameBody]
    rw [hportions]
    cbv
  exact ⟨hresult, renameBody_partition jobsRenaming [] body lines hresult⟩

end SqlRoutine.Renaming
