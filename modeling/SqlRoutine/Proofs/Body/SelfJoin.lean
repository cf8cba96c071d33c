import SqlRoutine.Proofs.Body.Share

/-! # Warnings about updates that join their own table

A body is converted call by call, and the state keeps the query whose `FROM` clause has not been seen. Here
this state is tied to **the history of the calls**. A query is pending (`PendingAt`) if it is the last one
that was started, and since then there was neither a blank line nor a warning.

* The state holds just the pending query (`pending_feedAt_iff`), which every call preserves
  (`pending_feedAt_succ_iff`).
* A line that is converted like an expression is followed by a warning just when it starts no query and names
  the table of the pending one after `FROM` (`warnedAt_iff_state`), and the query is then done with.
* So no query is the cause of two warnings (`PendingAt.eq_of_warnedAt`). -/

namespace SqlRoutine.Body

open Expression List

variable {q q' : Pending} {line : Text}

/-! ### One call -/

/-- The source line is converted by `otherLine`: it is neither blank nor a declaration nor a line of control
flow nor a known statement. -/
structure ReachesOther (p : Profile) (s : State) (source : Text) : Prop where
  visible : source.isBlank = false
  undeclared : (declare? p (literal p source)).value = none
  no_end : s.blocks = [] ∨ end? (literal p source) = none
  no_if : isIf (literal p source) = false
  no_while : isWhile (literal p source) = false
  no_statement : Statement.ofLine? (literal p source) = none

section

variable {p : Profile} {name : Text} {s : State} {source : Text} {ahead : List Text}

theorem undeclaredLine_other (hend : s.blocks = [] ∨ end? line = none)
    (hif : isIf line = false) (hwhile : isWhile line = false) :
    undeclaredLine p name s line ahead =
      { plainLine p s line ahead with notes := elseIfNotes line ++ (plainLine p s line ahead).notes } := by
  unfold undeclaredLine
  split
  · next block blocks extra hblocks hextra =>
    rcases hend with hnil | hnone
    · rw [hnil] at hblocks
      cases hblocks
    · rw [hnone] at hextra
      cases hextra
  · rw [if_neg (by simp [hif]), if_neg (by simp [hwhile])]

/-- What a line that reaches `otherLine` adds, and the state after it. -/
theorem ReachesOther.step_eq (h : ReachesOther p s source) (name : Text) (ahead : List Text) :
    (step p name s source ahead).state = (otherLine p s (literal p source)).state ∧
      (step p name s source ahead).lines = (otherLine p s (literal p source)).lines := by
  have hdeclare := h.undeclared
  unfold step
  rw [if_neg (by simp [h.visible])]
  dsimp only
  split
  · next declared notes heq =>
    rw [heq] at hdeclare
    cases hdeclare
  · rw [undeclaredLine_other h.no_end h.no_if h.no_while, plainLine, h.no_statement]
    exact ⟨rfl, rfl⟩

/-- A line that starts a query, or does not name the table of the pending one, is written alone. -/
theorem otherLine_alone
    (h : query? line = none → ∀ q, s.pending = some q → q.isJoinedBy line = false) :
    (otherLine p s line).state = { s with pending := (query? line).or s.pending } ∧
      texts (otherLine p s line).lines = [(convert p line).value] := by
  unfold otherLine
  cases hquery : query? line with
  | some q => simp [texts]
  | none =>
    cases hpending : s.pending with
    | none => simp [texts, ← hpending]
    | some q => simp [texts, ← hpending, h hquery q hpending]

/-- A line that names the table of the pending query is followed by the warning, and the query is done
with. -/
theorem otherLine_joined (hquery : query? line = none)
    (hpending : s.pending = some q) (hjoined : q.isJoinedBy line) :
    (otherLine p s line).state = { s with pending := none } ∧
      texts (otherLine p s line).lines =
        (convert p line).value :: q.warning.map (line.indent ++ ·) := by
  unfold otherLine
  simp [hquery, hpending, hjoined, texts, Function.comp_def]

theorem pending_outcome (s : State) (g : Guarded) : (Guarded.outcome s g).state.pending = s.pending := by
  unfold Guarded.outcome
  split_ifs <;> rfl

/-- **Only a line that reaches `otherLine` and a blank line touch the pending query.** -/
theorem pending_step_of_not_other (hvisible : source.isBlank = false) (h : ¬ReachesOther p s source) :
    (step p name s source ahead).state.pending = s.pending := by
  unfold step
  rw [if_neg (by simp [hvisible])]
  dsimp only
  split
  · rfl
  · next notes hdeclare =>
    dsimp only
    unfold undeclaredLine
    split
    · next block blocks extra hblocks hextra =>
      cases block with
      | whileLoop => rfl
      | ifBlock => exact pending_outcome _ _
    · next hend =>
      split_ifs with hif hwhile
      · exact pending_outcome s _
      · rfl
      · unfold plainLine
        cases hstatement : Statement.ofLine? (literal p source) with
        | some statement => rfl
        | none =>
          refine absurd ⟨hvisible, by rw [hdeclare], ?_, by simpa using hif, by simpa using hwhile,
            hstatement⟩ h
          cases hblocks : s.blocks with
          | nil => exact .inl rfl
          | cons block blocks =>
            right
            cases hextra : end? (literal p source) with
            | none => rfl
            | some extra => exact absurd hextra (hend block blocks extra hblocks)

end

/-! ### The warning -/

/-- **The text of a warning** about the query `q`: a comment that says what is wrong and goes on with
advice for the table, and after it the line that marks the query. -/
def Pending.IsWarning (q : Pending) (warning : List Text) : Prop :=
  ∃ advice, warning =
      ['/' :: replicate 80 '*', " * This ".toList ++ q.query.keyword ++
        " query includes the target table name in the FROM clause".toList] ++ advice ++
      [' ' :: replicate 80 '*' ++ ['/'], "ToDo: fix this query".toList] ∧
    (∀ t ∈ advice, " *".toList <+: t) ∧ " *   ".toList ++ q.query.keyword ++ ' ' :: q.table ∈ advice

theorem Pending.isWarning_warning (q : Pending) : q.IsWarning q.warning := by
  have hstars : ∀ advice : List Text, advice.all (isPrefixOf " *".toList) →
      ∀ t ∈ advice, " *".toList <+: t :=
    fun _ hall t ht => isPrefixOf_iff_prefix.mp (List.all_eq_true.mp hall t ht)
  rcases q with ⟨_ | _, table⟩
  · refine ⟨((warning ⟨.update, table⟩).drop 2).dropLast.dropLast, rfl, hstars _ rfl, ?_⟩
    exact mem_cons_of_mem _ mem_cons_self
  · refine ⟨((warning ⟨.delete, table⟩).drop 2).dropLast.dropLast, rfl, hstars _ rfl, ?_⟩
    exact mem_cons_of_mem _ mem_cons_self

/-- The lines of a warning after a line with the given indentation, as they are written. -/
def block (indent : Text) (warning : List Text) : List Text := warning.map fun line => tidy (indent ++ line)

theorem Pending.IsWarning.block_ne_nil {warning : List Text} (h : q.IsWarning warning) (indent : Text) :
    block indent warning ≠ [] := by
  obtain ⟨advice, rfl, -⟩ := h
  exact cons_ne_nil _ _

theorem Pending.appendLines_warning (q : Pending) (indent : Text) (body : List Text) :
    appendLines body (q.warning.map (indent ++ ·)) = body ++ block indent q.warning := by
  have hvisible : ∀ line ∈ q.warning.map (indent ++ ·), line.isBlank = false := by
    intro line hline
    obtain ⟨w, hw, rfl⟩ := mem_map.mp hline
    rw [Text.isBlank_append, isBlank_warning q w hw, Bool.and_false]
  rw [appendLines_of_not_blank hvisible, block, map_map]
  rfl

theorem Pending.isJoinedBy_iff : q.isJoinedBy line ↔
    ∃ table, firstFromTable? line = some table ∧ table.lower = q.table.lower := by
  unfold isJoinedBy
  cases firstFromTable? line <;> simp

/-! ### The history of the calls -/

/-- **A run of calls**, each with the line that it is given and the lines ahead of it. At first no query is
pending. -/
structure History where
  profile : Profile
  /-- The name of the routine. -/
  name : Text
  /-- The blocks that are open at first. -/
  blocks : List Block := []
  calls : List (Text × List Text)

namespace History

/-- Where the conversion stands before the call `i`. -/
def feedAt (h : History) (i : ℕ) : Feed :=
  Feed.run h.profile h.name { state := { blocks := h.blocks }, ahead := [] } (h.calls.take i)

/-- The call `i` is given a blank line. -/
def BlankAt (h : History) (i : ℕ) : Prop :=
  ∃ source ahead, h.calls[i]? = some (source, ahead) ∧ source.isBlank

/-- The call `i` is given a line that is converted like an expression; `line` is what functions and types
have been renamed to in it. -/
def OtherAt (h : History) (i : ℕ) (line : Text) : Prop :=
  ∃ source ahead, h.calls[i]? = some (source, ahead) ∧
    ReachesOther h.profile (h.feedAt i).state source ∧ literal h.profile source = line

/-- The call `i` starts a query. -/
def QueryAt (h : History) (i : ℕ) (q : Pending) : Prop := ∃ line, h.OtherAt i line ∧ query? line = some q

/-- The body after the call `i` if nothing but the line itself is added. -/
def bodyAfter (h : History) (i : ℕ) (line : Text) : List Text :=
  appendLine (h.feedAt i).body (convert h.profile line).value

/-- The line of the call `i` is followed by a warning about the query `q` in the body. -/
def WarnsOf (h : History) (i : ℕ) (line : Text) (q : Pending) : Prop :=
  ∃ warning, q.IsWarning warning ∧
    (h.feedAt (i + 1)).body = h.bodyAfter i line ++ block line.indent warning

/-- **The line of the call `i` is followed by a warning** in the body. -/
def WarnedAt (h : History) (i : ℕ) : Prop := ∃ line q, h.OtherAt i line ∧ h.WarnsOf i line q

/-- **The query that the call `j` has started is pending before the call `i`**: it is the last one, and since
then there was neither a blank line nor a warning. -/
structure PendingAt (h : History) (i j : ℕ) (q : Pending) : Prop where
  earlier : j < i
  started : h.QueryAt j q
  last : ∀ k, j < k → k < i → ∀ q', ¬h.QueryAt k q'
  no_blank : ∀ k, j < k → k < i → ¬h.BlankAt k
  no_warning : ∀ k, j < k → k < i → ¬h.WarnedAt k

section

variable {h : History} {i j : ℕ} {source line : Text} {ahead : List Text} {q : Pending}

theorem feedAt_succ (hcall : h.calls[i]? = some (source, ahead)) : h.feedAt (i + 1) =
    (h.feedAt i).after (step h.profile h.name (h.feedAt i).state source ahead) ahead := by
  unfold feedAt Feed.run
  rw [take_add_one, hcall, foldl_append]
  rfl

theorem feedAt_succ_of_none (hcall : h.calls[i]? = none) : h.feedAt (i + 1) = h.feedAt i := by
  unfold feedAt
  rw [take_add_one, hcall, Option.toList_none, append_nil]

theorem OtherAt.unique {line' : Text} (hother : h.OtherAt i line) (hother' : h.OtherAt i line') :
    line = line' := by
  obtain ⟨source, ahead, hcall, -, rfl⟩ := hother
  obtain ⟨source', ahead', hcall', -, rfl⟩ := hother'
  rw [hcall] at hcall'
  cases hcall'
  rfl

/-- What a call leaves behind whose line is converted like an expression. -/
theorem OtherAt.feedAt_succ (hother : h.OtherAt i line) :
    (h.feedAt (i + 1)).state = (otherLine h.profile (h.feedAt i).state line).state ∧
      (h.feedAt (i + 1)).body =
        appendLines (h.feedAt i).body (texts (otherLine h.profile (h.feedAt i).state line).lines) := by
  obtain ⟨source, ahead, hcall, hreaches, rfl⟩ := hother
  obtain ⟨hstate, hlines⟩ := hreaches.step_eq h.name ahead
  rw [History.feedAt_succ hcall, ← hstate, ← hlines]
  exact ⟨rfl, rfl⟩

theorem OtherAt.alone (hother : h.OtherAt i line)
    (halone : query? line = none → ∀ q, (h.feedAt i).state.pending = some q → q.isJoinedBy line = false) :
    (h.feedAt (i + 1)).body = h.bodyAfter i line ∧
      (h.feedAt (i + 1)).state.pending = (query? line).or (h.feedAt i).state.pending := by
  obtain ⟨hstate, hbody⟩ := hother.feedAt_succ
  obtain ⟨hstate', hlines⟩ := otherLine_alone (p := h.profile) halone
  rw [hbody, hlines, hstate, hstate']
  simp only [appendLines, foldl_cons, foldl_nil, bodyAfter, and_self]

theorem OtherAt.joined (hother : h.OtherAt i line) (hquery : query? line = none)
    (hpending : (h.feedAt i).state.pending = some q) (hjoined : q.isJoinedBy line) :
    (h.feedAt (i + 1)).body = h.bodyAfter i line ++ block line.indent q.warning ∧
      (h.feedAt (i + 1)).state.pending = none := by
  obtain ⟨hstate, hbody⟩ := hother.feedAt_succ
  obtain ⟨hstate', hlines⟩ := otherLine_joined (p := h.profile) hquery hpending hjoined
  rw [hbody, hlines, hstate, hstate', bodyAfter, ← q.appendLines_warning]
  simp only [appendLines, foldl_cons, and_self]

/-- What a warning depends on, in terms of the state. -/
theorem warnedAt_iff_state (hother : h.OtherAt i line) : h.WarnedAt i ↔ query? line = none ∧
    ∃ q, (h.feedAt i).state.pending = some q ∧ q.isJoinedBy line := by
  constructor
  · rintro ⟨line', q, hother', warning, hwarning, hbody⟩
    obtain rfl := hother.unique hother'
    by_contra hno
    have halone := hother.alone fun hquery q hpending => by
      rw [← Bool.not_eq_true]
      exact fun hjoined => hno ⟨hquery, q, hpending, hjoined⟩
    rw [halone.1, self_eq_append_right] at hbody
    exact hwarning.block_ne_nil _ hbody
  · rintro ⟨hquery, q, hpending, hjoined⟩
    exact ⟨line, q, hother, _, q.isWarning_warning, (hother.joined hquery hpending hjoined).1⟩

/-! ### The pending query -/

/-- After one more call the same query is pending, if the call neither starts one nor ends this one. -/
theorem pendingAt_succ_iff_of_quiet (hquery : ∀ q', ¬h.QueryAt i q') (hblank : ¬h.BlankAt i)
    (hwarned : ¬h.WarnedAt i) : (∃ j, h.PendingAt (i + 1) j q) ↔ ∃ j, h.PendingAt i j q := by
  constructor
  · rintro ⟨j, hj⟩
    have hlt : j < i := by
      refine lt_of_le_of_ne (Nat.le_of_lt_succ hj.earlier) ?_
      rintro rfl
      exact hquery q hj.started
    exact ⟨j, hlt, hj.started, fun k hk hki => hj.last k hk (by omega),
      fun k hk hki => hj.no_blank k hk (by omega), fun k hk hki => hj.no_warning k hk (by omega)⟩
  · rintro ⟨j, hj⟩
    have hcases : ∀ k, k < i + 1 → k < i ∨ k = i := fun k hk => Nat.lt_succ_iff_lt_or_eq.mp hk
    refine ⟨j, by have := hj.earlier; omega, hj.started, ?_, ?_, ?_⟩
    all_goals
      intro k hk hki
      rcases hcases k hki with hlt | rfl
    · exact hj.last k hk hlt
    · exact hquery
    · exact hj.no_blank k hk hlt
    · exact hblank
    · exact hj.no_warning k hk hlt
    · exact hwarned

theorem not_pendingAt_succ (hend : h.BlankAt i ∨ h.WarnedAt i) (hquery : ∀ q', ¬h.QueryAt i q') :
    ¬∃ j, h.PendingAt (i + 1) j q := by
  rintro ⟨j, hj⟩
  have hlt : j < i := by
    refine lt_of_le_of_ne (Nat.le_of_lt_succ hj.earlier) ?_
    rintro rfl
    exact hquery q hj.started
  rcases hend with hblank | hwarned
  · exact hj.no_blank i hlt (by omega) hblank
  · exact hj.no_warning i hlt (by omega) hwarned

theorem pendingAt_succ_iff_of_query (hquery : h.QueryAt i q') :
    (∃ j, h.PendingAt (i + 1) j q) ↔ q = q' := by
  constructor
  · rintro ⟨j, hj⟩
    have heq : j = i := by
      by_contra hne
      have := hj.earlier
      exact hj.last i (by omega) (by omega) q' hquery
    subst heq
    obtain ⟨line, hother, hline⟩ := hj.started
    obtain ⟨line', hother', hline'⟩ := hquery
    rw [hother.unique hother', hline'] at hline
    exact (Option.some.inj hline).symm
  · rintro rfl
    exact ⟨i, by omega, hquery, fun k hk hki => by omega, fun k hk hki => by omega,
      fun k hk hki => by omega⟩

/-- A call whose line is converted like an expression keeps the state in step with the history. -/
theorem OtherAt.pending_iff (hother : h.OtherAt i line) (hblank : ¬h.BlankAt i)
    (hi : ∀ q, (h.feedAt i).state.pending = some q ↔ ∃ j, h.PendingAt i j q) (q : Pending) :
    (h.feedAt (i + 1)).state.pending = some q ↔ ∃ j, h.PendingAt (i + 1) j q := by
  cases hquery : query? line with
  | some q' =>
    have halone := (hother.alone fun hnone => by rw [hquery] at hnone; cases hnone).2
    rw [halone, hquery, Option.some_or, pendingAt_succ_iff_of_query ⟨_, hother, hquery⟩, Option.some_inj,
      eq_comm]
  | none =>
    have hnoQuery : ∀ q', ¬h.QueryAt i q' := by
      rintro q' ⟨line', hother', hline⟩
      rw [← hother.unique hother', hquery] at hline
      cases hline
    by_cases hwarned : h.WarnedAt i
    · obtain ⟨-, q', hpending, hjoined⟩ := (warnedAt_iff_state hother).mp hwarned
      rw [(hother.joined hquery hpending hjoined).2]
      exact iff_of_false nofun (not_pendingAt_succ (.inr hwarned) hnoQuery)
    · have halone := (hother.alone fun hnone q' hpending => by
        rw [← Bool.not_eq_true]
        exact fun hjoined => hwarned ((warnedAt_iff_state hother).mpr ⟨hnone, q', hpending, hjoined⟩)).2
      rw [halone, hquery, Option.none_or, hi, pendingAt_succ_iff_of_quiet hnoQuery hblank hwarned]

/-- **One call keeps the state in step with the history.** -/
theorem pending_feedAt_succ_iff (hi : ∀ q, (h.feedAt i).state.pending = some q ↔ ∃ j, h.PendingAt i j q)
    (q : Pending) : (h.feedAt (i + 1)).state.pending = some q ↔ ∃ j, h.PendingAt (i + 1) j q := by
  by_cases hany : ∃ line, h.OtherAt i line
  · obtain ⟨line, hother⟩ := hany
    refine hother.pending_iff ?_ hi q
    rintro ⟨source', ahead', hcall', hblank⟩
    obtain ⟨source, ahead, hcall, hreaches, -⟩ := hother
    rw [hcall] at hcall'
    cases hcall'
    rw [hreaches.visible] at hblank
    cases hblank
  · have hnoQuery : ∀ q', ¬h.QueryAt i q' := by
      rintro q' ⟨line, hother, -⟩
      exact hany ⟨line, hother⟩
    have hwarned : ¬h.WarnedAt i := by
      rintro ⟨line, -, hother, -⟩
      exact hany ⟨line, hother⟩
    by_cases hblank : h.BlankAt i
    · have hnone : (h.feedAt (i + 1)).state.pending = none := by
        obtain ⟨source, ahead, hcall, hsource⟩ := hblank
        rw [feedAt_succ hcall, Feed.after, step, if_pos hsource]
      rw [hnone]
      exact iff_of_false (by simp) (not_pendingAt_succ (.inl hblank) hnoQuery)
    · have hsame : (h.feedAt (i + 1)).state.pending = (h.feedAt i).state.pending := by
        cases hcall : h.calls[i]? with
        | none => rw [feedAt_succ_of_none hcall]
        | some call =>
          rw [feedAt_succ hcall]
          refine pending_step_of_not_other ?_ fun hreaches => hany ⟨_, _, _, hcall, hreaches, rfl⟩
          rw [← Bool.not_eq_true]
          exact fun hsource => hblank ⟨_, _, hcall, hsource⟩
      rw [hsame, hi, pendingAt_succ_iff_of_quiet hnoQuery hblank hwarned]

end

/-- **The state holds the pending query**, before every call. -/
theorem pending_feedAt_iff (h : History) : ∀ (i : ℕ) (q : Pending),
    (h.feedAt i).state.pending = some q ↔ ∃ j, h.PendingAt i j q
  | 0, _ => iff_of_false nofun fun ⟨_, hj⟩ => Nat.not_lt_zero _ hj.earlier
  | i + 1, q => pending_feedAt_succ_iff (pending_feedAt_iff h i) q

/-- **A query is the cause of at most one warning.** -/
theorem PendingAt.eq_of_warnedAt {h : History} {i i' j : ℕ} (hi : h.PendingAt i j q)
    (hi' : h.PendingAt i' j q') (hwarned : h.WarnedAt i) (hwarned' : h.WarnedAt i') : i = i' := by
  rcases Nat.lt_trichotomy i i' with hlt | heq | hlt
  · exact absurd hwarned (hi'.no_warning i hi.earlier hlt)
  · exact heq
  · exact absurd hwarned' (hi.no_warning i' hi'.earlier hlt)

/-- **Warnings and the history of the calls.** For every run of calls, a line that is converted like an
expression is followed by a warning if and only if it starts no query itself and the first table after `FROM`
in its code is, ignoring case, the table of the pending query: the last one that was started, with neither a
blank line nor a warning since. The warning, a comment and the line `ToDo: fix this query`
(`Pending.IsWarning`), is about that query and stands right after the line; without one the line stands
alone. Each query is the cause of at most one warning, and the state holds a query exactly while one is
pending. -/
theorem selfJoin_warned_iff (h : History) :
    (∀ i line, h.OtherAt i line →
      (h.WarnedAt i ↔ query? line = none ∧ ∃ j q table, h.PendingAt i j q ∧
        firstFromTable? line = some table ∧ table.lower = q.table.lower) ∧
      (h.WarnedAt i → ∀ j q, h.PendingAt i j q → h.WarnsOf i line q) ∧
      (¬h.WarnedAt i → (h.feedAt (i + 1)).body = h.bodyAfter i line)) ∧
    (∀ i i' j q q', h.PendingAt i j q → h.PendingAt i' j q' → h.WarnedAt i → h.WarnedAt i' → i = i') ∧
    ∀ i q, (h.feedAt i).state.pending = some q ↔ ∃ j, h.PendingAt i j q := by
  refine ⟨fun i line hother => ⟨?_, fun hwarned j q hj => ?_, fun hwarned => ?_⟩,
    fun i i' j q q' hi hi' => hi.eq_of_warnedAt hi', h.pending_feedAt_iff⟩
  · rw [warnedAt_iff_state hother]
    refine and_congr_right fun _ => ⟨?_, ?_⟩
    · rintro ⟨q, hpending, hjoined⟩
      obtain ⟨j, hj⟩ := (h.pending_feedAt_iff i q).mp hpending
      obtain ⟨table, htable, hsame⟩ := Pending.isJoinedBy_iff.mp hjoined
      exact ⟨j, q, table, hj, htable, hsame⟩
    · rintro ⟨j, q, table, hj, htable, hsame⟩
      exact ⟨q, (h.pending_feedAt_iff i q).mpr ⟨j, hj⟩, Pending.isJoinedBy_iff.mpr ⟨table, htable, hsame⟩⟩
  · have hpending := (h.pending_feedAt_iff i q).mpr ⟨j, hj⟩
    obtain ⟨hquery, q', hpending', hjoined⟩ := (warnedAt_iff_state hother).mp hwarned
    rw [hpending] at hpending'
    cases hpending'
    exact ⟨_, q.isWarning_warning, (hother.joined hquery hpending hjoined).1⟩
  · refine (hother.alone fun hquery q hpending => ?_).1
    rw [← Bool.not_eq_true]
    exact fun hjoined => hwarned ((warnedAt_iff_state hother).mpr ⟨hquery, q, hpending, hjoined⟩)

/-- A query, and a line that names its table in another spelling. -/
def deleteHistory : History where
  profile := { Profile.standard with functionNames := [] }
  name := "P".toList
  calls := [("DELETE [T]".toList, []), ("FROM dbo.t".toList, [])]

theorem selfJoin_warned_delete : deleteHistory.WarnedAt 1 ∧ (deleteHistory.feedAt 2).body =
    ["DELETE [T]", "FROM dbo.t",
      "/********************************************************************************",
      " * This DELETE query includes the target table name in the FROM clause",
      " * The WHERE clause needs to have a self join to the target table, for example:",
      " *   DELETE T", " *   FROM source", " *   WHERE source.id = T.id;", " *",
      " * Delete queries must also use the USING keyword",
      " * Alternatively, the more standard approach is to rearrange the query to be similar to",
      " *   DELETE FROM T WHERE id IN (SELECT id FROM ...);",
      " ********************************************************************************/",
      "ToDo: fix this query"].map String.toList := by
  obtain ⟨hlines, -, hpending⟩ := selfJoin_warned_iff deleteHistory
  have hstate : (deleteHistory.feedAt 1).state = ⟨[], some ⟨.delete, "T".toList⟩⟩ := by decide
  obtain ⟨j, hj⟩ := (hpending 1 ⟨.delete, "T".toList⟩).mp (by rw [hstate])
  have hother : deleteHistory.OtherAt 1 "FROM dbo.t".toList := by
    refine ⟨"FROM dbo.t".toList, [], rfl, ?_, by decide⟩
    rw [hstate]
    exact ⟨by decide, by decide, by decide, by decide, by decide, by decide⟩
  refine ⟨(hlines 1 _ hother).1.mpr ⟨by decide, j, _, "t".toList, hj, by decide, by decide⟩, ?_⟩
  decide +kernel

end History

end SqlRoutine.Body
