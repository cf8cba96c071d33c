import SqlRoutine.Proofs.Rename.Tokens
import SqlRoutine.Proofs.Text.Word

/-! # Columns are renamed in turn

The columns of a block are renamed one after the other, each in the text that the others left. In a line
of any script this acts on the tokens (`renameColumns_tokens`): a token that is not behind an at sign goes
through all columns in turn (`inTurn`) and may be renamed again and again. **Every token gets the new name
of its own column, and no other, just when the new names are not renamed by later columns**
(`inTurn_eq_ownName_iff`). -/

namespace SqlRoutine.Renaming

open List Text

variable {r : Renaming}

/-! ### The rule -/

/-- A token after the renaming of one column. -/
def renameToken (c : NewColumn) (w : Text) : Text := if Spells c.source w then c.name else w

/-- A token after the renaming of columns, one after the other. -/
def inTurn (columns : List NewColumn) (w : Text) : Text :=
  columns.foldl (fun w c => renameToken c w) w

/-- **The new name of the column that a token names**, or the token if it names none. -/
def ownName (columns : List NewColumn) (w : Text) : Text :=
  ((columns.find? fun c => decide (Spells c.source w)).map (·.name)).getD w

/-- Tokens with a change made to all that are not behind an at sign. The token before them is given. -/
def onTokens (f : Text → Text) : (before : Text) → List Text → List Text
  | _, [] => []
  | before, w :: ts => (if before = ['@'] then w else f w) :: onTokens f w ts

/-- The tokens that are not behind an at sign. -/
def freeTokens : (before : Text) → List Text → List Text
  | _, [] => []
  | before, w :: ts => (if before = ['@'] then [] else [w]) ++ freeTokens w ts

/-- The new name of the column that the token names is left alone by the columns after it. -/
def Settles (columns : List NewColumn) (w : Text) : Prop :=
  ∀ c post, (c :: post) <:+ columns → Spells c.source w → inTurn post c.name = c.name

/-- The names of columns, old and new, are identifiers. -/
def IdentifierColumns (columns : List NewColumn) : Prop :=
  ∀ c ∈ columns, isIdentifier c.source ∧ isIdentifier c.name

theorem inTurn_cons (c : NewColumn) (columns : List NewColumn) (w : Text) :
    inTurn (c :: columns) w = inTurn columns (renameToken c w) := rfl

/-! ### Tokens of any script -/

/-- A change of tokens that makes words of words and leaves signs as they are. -/
structure KeepsKind (f : Text → Text) : Prop where
  sign : ∀ d, isWord d = false → f [d] = [d]
  word : ∀ w, w ≠ [] → w.all isWord → f w ≠ [] ∧ (f w).all isWord

/-- **Induction over the tokens of a text**: signs, and words that end where they have to. -/
theorem tokens_induction {P : Text → Prop} (nil : P [])
    (sign : ∀ c z, isWord c = false → P z → P (c :: z))
    (word : ∀ w z, w ≠ [] → w.all isWord → atWordEnd z → P z → P (w ++ z)) (t : Text) :
    P t := by
  cases t with
  | nil => exact nil
  | cons c t =>
    by_cases hc : isWord c
    · have hlength : (t.dropWhile isWord).length ≤ t.length := (dropWhile_suffix isWord).length_le
      have hrest := tokens_induction nil sign word ((c :: t).dropWhile isWord)
      rw [← takeWhile_append_dropWhile (p := isWord) (l := c :: t)]
      refine word _ _ ?_ all_takeWhile (atWordEnd_dropWhile _) hrest
      rw [takeWhile_cons_of_pos hc]
      exact cons_ne_nil c _
    · exact sign c t (Bool.eq_false_of_not_eq_true hc) (tokens_induction nil sign word t)
termination_by t.length
decreasing_by
  · rw [dropWhile_cons_of_pos hc]
    exact Nat.lt_succ_of_le hlength
  · exact Nat.lt_succ_self t.length

theorem sign_or_word {t w : Text} (h : w ∈ tokens t) :
    (∃ d, w = [d] ∧ isWord d = false) ∨ (w ≠ [] ∧ w.all isWord) := by
  induction t using tokens_induction with
  | nil => cases h
  | sign c z hc ih =>
    rw [tokens_sign hc] at h
    rcases mem_cons.mp h with rfl | h
    · exact .inl ⟨c, rfl, hc⟩
    · exact ih h
  | word v z hne hv hz ih =>
    rw [tokens_run hne hv hz] at h
    rcases mem_cons.mp h with rfl | h
    · exact .inr ⟨hne, hv⟩
    · exact ih h

section

variable {f g : Text → Text}

theorem onTokens_cons (f : Text → Text) (before w : Text) (ts : List Text) :
    onTokens f before (w :: ts) = (if before = ['@'] then w else f w) :: onTokens f w ts := rfl

theorem KeepsKind.ite (hf : KeepsKind f) (before : Text) :
    KeepsKind fun w => if before = ['@'] then w else f w where
  sign d hd := by
    split_ifs
    · rfl
    · exact hf.sign d hd
  word w hne hw := by
    split_ifs
    · exact ⟨hne, hw⟩
    · exact hf.word w hne hw

/-- Changed tokens that start with a sign go on with this sign. -/
theorem atWordEnd_onTokens (hf : KeepsKind f) {z : Text} (hz : atWordEnd z) (before : Text) :
    atWordEnd (onTokens f before (tokens z)).flatten := by
  cases z with
  | nil => rfl
  | cons c z =>
    rw [atWordEnd, Bool.not_eq_true'] at hz
    rw [tokens_sign hz, onTokens_cons, (hf.ite before).sign c hz, flatten_cons,
      singleton_append, atWordEnd, hz]
    rfl

/-- **The tokens of changed tokens are the changed tokens.** -/
theorem tokens_onTokens (hf : KeepsKind f) (t before : Text) :
    tokens (onTokens f before (tokens t)).flatten = onTokens f before (tokens t) := by
  induction t using tokens_induction generalizing before with
  | nil => rfl
  | sign c z hc ih =>
    rw [tokens_sign hc, onTokens_cons, (hf.ite before).sign c hc, flatten_cons,
      singleton_append, tokens_sign hc, ih]
  | word w z hne hw hz ih =>
    obtain ⟨hne', hw'⟩ := (hf.ite before).word w hne hw
    rw [tokens_run hne hw hz, onTokens_cons, flatten_cons,
      tokens_run hne' hw' (atWordEnd_onTokens hf hz w), ih]

theorem count_of_all_isWord {w : Text} (hw : w.all isWord) {c : Char} (hc : isWord c = false) :
    w.count c = 0 := by
  refine count_eq_zero.mpr fun hin => ?_
  rw [all_eq_true.mp hw c hin] at hc
  cases hc

theorem count_onTokens (hf : KeepsKind f) {c : Char} (hc : isWord c = false) (t before : Text) :
    (onTokens f before (tokens t)).flatten.count c = t.count c := by
  induction t using tokens_induction generalizing before with
  | nil => rfl
  | sign d z hd ih =>
    rw [tokens_sign hd, onTokens_cons, (hf.ite before).sign d hd, flatten_cons,
      singleton_append, count_cons, count_cons, ih]
  | word w z hne hw hz ih =>
    obtain ⟨-, hw'⟩ := (hf.ite before).word w hne hw
    rw [tokens_run hne hw hz, onTokens_cons, flatten_cons, List.count_append, List.count_append,
      count_of_all_isWord hw' hc, count_of_all_isWord hw hc, ih]

theorem KeepsKind.eq_at_iff (hf : KeepsKind f) {t w : Text} (hw : w ∈ tokens t) :
    f w = ['@'] ↔ w = ['@'] := by
  rcases sign_or_word hw with ⟨d, rfl, hd⟩ | ⟨hne, hall⟩
  · rw [hf.sign d hd]
  · have hat : ∀ {u : Text}, u.all isWord → u ≠ ['@'] := by
      rintro u hu rfl
      cases hu
    exact iff_of_false (hat (hf.word w hne hall).2) (hat hall)

theorem onTokens_congr_before (g : Text → Text) {a b : Text} (h : a = ['@'] ↔ b = ['@'])
    (ts : List Text) : onTokens g a ts = onTokens g b ts := by
  cases ts with
  | nil => rfl
  | cons w ts => rw [onTokens_cons, onTokens_cons, if_congr h rfl rfl]

/-- Two changes, one after the other, are one. -/
theorem onTokens_onTokens (g : Text → Text) : ∀ (ts : List Text) (before : Text),
    (∀ w ∈ ts, f w = ['@'] ↔ w = ['@']) →
      onTokens g before (onTokens f before ts) = onTokens (fun w => g (f w)) before ts
  | [], _, _ => rfl
  | w :: ts, before, h => by
    have hnext : (if before = ['@'] then w else f w) = ['@'] ↔ w = ['@'] := by
      split_ifs
      · exact Iff.rfl
      · exact h w mem_cons_self
    rw [onTokens_cons, onTokens_cons, onTokens_cons, onTokens_congr_before g hnext,
      onTokens_onTokens g ts w fun v hv => h v (mem_cons_of_mem w hv)]
    congr 1
    split_ifs
    · rfl
    · rfl

theorem onTokens_id : ∀ (before : Text) (ts : List Text), onTokens (fun w => w) before ts = ts
  | _, [] => rfl
  | before, w :: ts => by rw [onTokens_cons, onTokens_id w ts, ite_self]

theorem onTokens_eq_iff : ∀ (ts : List Text) (before : Text),
    onTokens f before ts = onTokens g before ts ↔ ∀ w ∈ freeTokens before ts, f w = g w
  | [], _ => by simp [onTokens, freeTokens]
  | w :: ts, before => by
    rw [onTokens_cons, onTokens_cons, List.cons.injEq, onTokens_eq_iff ts w, freeTokens,
      forall_mem_append]
    refine and_congr_left fun _ => ?_
    split_ifs
    · simp
    · simp

end

/-! ### One column after the other -/

section

variable {c : NewColumn}

theorem keepsKind_renameToken (hsource : isIdentifier c.source)
    (hname : isIdentifier c.name) : KeepsKind (renameToken c) where
  sign d hd := by
    refine if_neg fun hspells => ?_
    have hword := all_isWord_of_spells (isIdentifier_iff.mp hsource).2 hspells
    rw [all_cons, hd] at hword
    cases hword
  word w hne hw := by
    unfold renameToken
    split_ifs
    · exact ⟨(isIdentifier_iff.mp hname).1, all_isWord_of_identifier hname⟩
    · exact ⟨hne, hw⟩

/-- The column is found where the run of word characters spells it. -/
theorem columnFinder_run (hsource : isIdentifier c.source) (prev : Option Char) (t : Text) :
    columnFinder c prev t = if ¬prev.any (fun d => isWord d || d == '@') ∧
        Spells c.source (t.takeWhile isWord) then some (c.name, t.dropWhile isWord) else none := by
  unfold columnFinder
  rw [word?_run (isIdentifier_iff.mp hsource).2]
  by_cases hprev : prev.any (fun d => isWord d || d == '@')
  · rw [if_pos hprev, if_neg fun h => h.1 hprev]
  · rw [if_neg hprev, apply_ite (Option.map _)]
    exact if_congr (and_iff_right hprev).symm rfl rfl

theorem not_spells_nil (hsource : isIdentifier c.source) : ¬Spells c.source [] := by
  intro h
  have hlength := length_of_spells h
  exact (isIdentifier_iff.mp hsource).1 (length_eq_zero_iff.mp hlength.symm)

/-- **A column is renamed token by token.** `before` is the token before the text. -/
theorem replaceFrom_columnFinder_tokens (hsource : isIdentifier c.source)
    (hname : isIdentifier c.name) (t before : Text)
    (hbefore : before.getLast?.any isWord → atWordEnd t)
    (hat : before.getLast? = some '@' ↔ before = ['@']) :
    replaceFrom (columnFinder c) before.getLast? t =
      (onTokens (renameToken c) before (tokens t)).flatten := by
  have hkind := keepsKind_renameToken hsource hname
  induction t using tokens_induction generalizing before with
  | nil => rfl
  | sign d z hd ih =>
    have hnone : columnFinder c before.getLast? (d :: z) = none := by
      rw [columnFinder_run hsource, takeWhile_cons_of_neg (by simp [hd]),
        if_neg fun h => not_spells_nil hsource h.2]
    have hrest := ih [d] (by simp [hd]) (by simp)
    rw [tokens_sign hd, onTokens_cons, (hkind.ite before).sign d hd, flatten_cons, ← hrest,
      replaceFrom_of_none hnone]
    rfl
  | word w z hne hw hz ih =>
    have hout := outsideWords_columnFinder c
    have hlast : w.getLast?.any isWord := by
      rw [getLast?_eq_some_getLast hne, Option.any_some]
      exact all_eq_true.mp hw _ (getLast_mem hne)
    have hrest : replaceFrom (columnFinder c) (some '_') z =
        (onTokens (renameToken c) w (tokens z)).flatten := by
      rw [← ih w (fun _ => hz) ?_, replaceFrom, replaceFrom,
        segmentsFrom_after_word hout _ hlast]
      refine iff_of_false (fun h => ?_) (fun h => ?_)
      · rw [h] at hlast
        cases hlast
      · rw [h] at hlast
        cases hlast
    have hfree : before.getLast?.any isWord = false := by
      refine Bool.eq_false_of_not_eq_true fun hword => ?_
      obtain ⟨a, w, rfl⟩ := exists_cons_of_ne_nil hne
      rw [all_cons, Bool.and_eq_true] at hw
      have hend := hbefore hword
      rw [cons_append, atWordEnd, hw.1] at hend
      cases hend
    obtain ⟨htake, hdrop⟩ := run_of_atWordEnd hw hz
    have hguard : before.getLast?.any (fun d => isWord d || d == '@') ↔ before = ['@'] := by
      rw [← hat]
      cases hprev : before.getLast? with
      | none => simp
      | some d =>
        rw [hprev, Option.any_some] at hfree
        simp [hfree]
    rw [tokens_run hne hw hz, onTokens_cons, flatten_cons, ← hrest]
    have hfind := columnFinder_run hsource before.getLast? (w ++ z)
    rw [htake, hdrop] at hfind
    by_cases hbehind : before = ['@']
    · rw [if_neg fun h => h.1 (hguard.mpr hbehind)] at hfind
      rw [if_pos hbehind, replaceFrom_run hout hne hw hfind]
    · by_cases hspells : Spells c.source w
      · rw [if_pos ⟨mt hguard.mp hbehind, hspells⟩] at hfind
        rw [if_neg hbehind, renameToken, if_pos hspells, replaceFrom,
          segmentsFrom_found hout hlast hfind]
        rfl
      · rw [if_neg fun h => hspells h.2] at hfind
        rw [if_neg hbehind, renameToken, if_neg hspells, replaceFrom_run hout hne hw hfind]

end

/-- **Columns are renamed token by token**, each token going through all columns in turn. -/
theorem renameColumns_tokens : ∀ {columns : List NewColumn}, IdentifierColumns columns →
    ∀ line, tokens (renameColumns columns line) = onTokens (inTurn columns) [] (tokens line)
  | [], _, line => (onTokens_id [] (tokens line)).symm
  | c :: columns, hcolumns, line => by
    obtain ⟨hsource, hname⟩ := hcolumns c mem_cons_self
    have hkind := keepsKind_renameToken hsource hname
    have hline : tokens (line.replaceAll (columnFinder c)) =
        onTokens (renameToken c) [] (tokens line) := by
      have hreplace := replaceFrom_columnFinder_tokens hsource hname line [] (by simp) (by simp)
      rw [replaceAll_eq, ← tokens_onTokens hkind line []]
      exact congrArg tokens hreplace
    have hrest := renameColumns_tokens (fun d hd => hcolumns d (mem_cons_of_mem c hd))
      (line.replaceAll (columnFinder c))
    rw [hline, onTokens_onTokens _ _ _ fun w hw => hkind.eq_at_iff hw] at hrest
    exact hrest

/-- **The renaming of columns leaves the signs of a line.** -/
theorem count_renameColumns {c : Char} (hc : isWord c = false) : ∀ {columns : List NewColumn},
    IdentifierColumns columns → ∀ line : Text, (renameColumns columns line).count c = line.count c
  | [], _, _ => rfl
  | d :: columns, hcolumns, line => by
    obtain ⟨hsource, hname⟩ := hcolumns d mem_cons_self
    have hreplace := replaceFrom_columnFinder_tokens hsource hname line [] (by simp) (by simp)
    have hrest := count_renameColumns hc (fun e he => hcolumns e (mem_cons_of_mem d he))
      (line.replaceAll (columnFinder d))
    refine hrest.trans ?_
    rw [replaceAll_eq, ← count_onTokens (keepsKind_renameToken hsource hname) hc line []]
    exact congrArg (List.count c) hreplace

/-! ### Own names -/

section

variable {columns : List NewColumn}

theorem inTurn_of_not_spells {pre : List NewColumn} {w : Text}
    (h : ∀ c ∈ pre, ¬Spells c.source w) : inTurn pre w = w := by
  induction pre with
  | nil => rfl
  | cons c pre ih =>
    rw [inTurn_cons, renameToken, if_neg (h c mem_cons_self)]
    exact ih fun d hd => h d (mem_cons_of_mem c hd)

theorem inTurn_append (pre post : List NewColumn) (w : Text) :
    inTurn (pre ++ post) w = inTurn post (inTurn pre w) := foldl_append

/-- Of columns that differ, a token names one only. -/
theorem suffix_unique (hcolumns : IdentifierColumns columns)
    (hdifferent : columns.Pairwise fun c d => c.source.lower ≠ d.source.lower) {w : Text}
    {c d : NewColumn} {post post' : List NewColumn} (hc : (c :: post) <:+ columns)
    (hd : (d :: post') <:+ columns) (hcw : Spells c.source w) (hdw : Spells d.source w) :
    c :: post = d :: post' := by
  have hsame : c.source.lower = d.source.lower :=
    lower_eq_of_spells (isIdentifier_iff.mp (hcolumns c (hc.subset mem_cons_self)).1).2
      (isIdentifier_iff.mp (hcolumns d (hd.subset mem_cons_self)).1).2 hcw hdw
  rcases suffix_or_suffix_of_suffix hc hd with hsuffix | hsuffix
  · rcases suffix_cons_iff.mp hsuffix with heq | hinner
    · exact heq
    · have hpair := (pairwise_cons.mp (hdifferent.sublist hd.sublist)).1
      exact absurd hsame.symm (hpair c (hinner.subset mem_cons_self))
  · rcases suffix_cons_iff.mp hsuffix with heq | hinner
    · exact heq.symm
    · have hpair := (pairwise_cons.mp (hdifferent.sublist hc.sublist)).1
      exact absurd hsame (hpair d (hinner.subset mem_cons_self))

/-- **A token gets the new name of its own column just when later columns leave this name alone.** -/
theorem inTurn_eq_ownName_iff (hcolumns : IdentifierColumns columns)
    (hdifferent : columns.Pairwise fun c d => c.source.lower ≠ d.source.lower) (w : Text) :
    inTurn columns w = ownName columns w ↔ Settles columns w := by
  unfold ownName
  cases hfind : columns.find? fun c => decide (Spells c.source w) with
  | none =>
    have hnone : ∀ c ∈ columns, ¬Spells c.source w := by
      simpa using find?_eq_none.mp hfind
    refine iff_of_true (inTurn_of_not_spells hnone) fun c post hsuffix hspells => ?_
    exact absurd hspells (hnone c (hsuffix.subset mem_cons_self))
  | some c =>
    obtain ⟨hspells, pre, post, hsplit, hpre⟩ := find?_eq_some_iff_append.mp hfind
    rw [decide_eq_true_eq] at hspells
    have hturn : inTurn columns w = inTurn post c.name := by
      have hfirst : inTurn pre w = w := inTurn_of_not_spells (by simpa using hpre)
      rw [hsplit, inTurn_append, hfirst, inTurn_cons, renameToken, if_pos hspells]
    have hsuffix : (c :: post) <:+ columns := ⟨pre, hsplit.symm⟩
    rw [Option.map_some, Option.getD_some, hturn]
    constructor
    · intro hname d post' hd hdw
      obtain ⟨rfl, rfl⟩ := List.cons.inj (suffix_unique hcolumns hdifferent hsuffix hd hspells hdw)
      exact hname
    · exact fun hsettles => hsettles c post hsuffix hspells

end

/-! ### Blocks -/

/-- The columns of a block: those of the tables in it that get another name and are long enough. -/
def blockColumns (r : Renaming) (resolved : List (List (Char ⊕ NewTable))) : List NewColumn :=
  (tablesIn resolved).flatMap r.renamedColumns

/-- **The columns of a block are renamed in turn.** A block whose tables are resolved is renamed line by
line: between the line with the new tables and the line in the end, every token that is not behind an at
sign goes through the columns of the block one after the other, and all other tokens stay. If the columns
have different names, this gives every token the new name of its own column, and changes no other token,
just when the columns that come later do not rename the new name again. -/
theorem renameBlock_columns (hnames : IdentifierColumns r.map.allColumns) (earlier : List (List Text))
    {block : List Text} {resolved : List (List (Char ⊕ NewTable))}
    (hresolved : block.mapM r.resolveLine = .ok resolved) :
    ∃ lines, (r.renameBlock (r.columnsAfter earlier) block).result = .ok lines ∧
      List.Forall₂ (fun before after =>
          tokens after = onTokens (inTurn (r.blockColumns resolved)) [] (tokens before) ∧
          ((r.blockColumns resolved).Pairwise (fun c d => c.source.lower ≠ d.source.lower) →
            (tokens after = onTokens (ownName (r.blockColumns resolved)) [] (tokens before) ↔
              ∀ w ∈ freeTokens [] (tokens before), Settles (r.blockColumns resolved) w)))
        (resolved.map r.writeLine) lines := by
  have hcolumns : IdentifierColumns (r.blockColumns resolved) := fun c hc =>
    hnames c (areRenamed_flatMap _ c hc).1
  refine ⟨r.writeBlock (r.blockColumns resolved) resolved, ?_, ?_⟩
  · unfold renameBlock
    rw [hresolved]
    dsimp only
    rw [(cachedColumnsOf_eq _ (coherent_columnsAfter r earlier)).1]
    rfl
  · rw [writeBlock, List.forall₂_map_left_iff, List.forall₂_map_right_iff]
    refine List.forall₂_same.mpr fun line _ => ?_
    have htokens := renameColumns_tokens hcolumns (r.writeLine line)
    refine ⟨htokens, fun hdifferent => ?_⟩
    rw [htokens, onTokens_eq_iff]
    exact forall₂_congr fun w _ => inTurn_eq_ownName_iff hcolumns hdifferent w

/-- A renaming in which the new name of one column is the old name of the next. -/
def chainRenaming : Renaming where
  map := NameMap.ofEntries [
    ⟨"T_Jobs".toList, "Alpha".toList, "sw".toList, "t_jobs".toList, "Beta".toList⟩,
    ⟨"T_Jobs".toList, "Beta".toList, "sw".toList, "t_jobs".toList, "Gamma".toList⟩]
  schema := "public".toList
  columnLength := 4
  verbose := false

/-- A column is renamed twice: it gets the new name of the next column and not its own. -/
theorem renameBlock_columns_chain :
    let block := ["Select Alpha, @Beta From T_Jobs".toList]
    let resolved := ["Select Alpha, @Beta From ".toList.map .inl ++ [.inr ⟨"sw".toList, "t_jobs".toList⟩]]
    block.mapM chainRenaming.resolveLine = .ok resolved ∧
      ∃ after, (chainRenaming.renameBlock (chainRenaming.columnsAfter []) block).result = .ok [after] ∧
        tokens after = ["Select", " ", "Gamma", ",", " ", "@", "Beta", " ", "From", " ", "sw", ".",
          "t_jobs"].map String.toList ∧
        ownName (chainRenaming.blockColumns resolved) "Alpha".toList = "Beta".toList ∧
        ¬Settles (chainRenaming.blockColumns resolved) "Alpha".toList := by
  intro block resolved
  have hall : chainRenaming.map.allColumns =
      [⟨"Alpha".toList, "Beta".toList⟩, ⟨"Beta".toList, "Gamma".toList⟩] := by cbv
  have hcolumns : chainRenaming.blockColumns resolved =
      [⟨"Alpha".toList, "Beta".toList⟩, ⟨"Beta".toList, "Gamma".toList⟩] := by cbv
  have hnames : IdentifierColumns chainRenaming.map.allColumns := by
    rw [hall, IdentifierColumns]
    decide
  have hresolved : block.mapM chainRenaming.resolveLine = .ok resolved := by cbv
  obtain ⟨lines, hlines, hrelated⟩ := renameBlock_columns hnames [] hresolved
  rw [hcolumns] at hrelated ⊢
  obtain ⟨after, others, ⟨hafter, -⟩, hothers, rfl⟩ := List.forall₂_cons_left_iff.mp hrelated
  obtain rfl := List.forall₂_nil_left_iff.mp hothers
  refine ⟨hresolved, after, hlines, ?_, by decide, fun hsettles => ?_⟩
  · rw [hafter]
    decide
  · have hsecond := hsettles ⟨"Alpha".toList, "Beta".toList⟩ [⟨"Beta".toList, "Gamma".toList⟩]
      List.suffix_rfl (by decide)
    exact absurd hsecond (by decide)

end SqlRoutine.Renaming
