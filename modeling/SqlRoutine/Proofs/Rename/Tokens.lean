import Mathlib.Data.List.SplitBy
import SqlRoutine.Proofs.Rename.Idempotence

/-! # Tables are renamed as whole tokens

A line is a sequence of tokens: the longest runs of word characters, and every other character alone.
What becomes of a token depends on the token itself and on its neighbours (`renamedToken`): the name of a
table gives way to its new name where it stands free, or behind a dot and the name of a schema that
stands free, and such a schema is dropped with its dot. All other tokens are kept. **In a line of ASCII
characters without square brackets the search for tables does just this** (`writeLine_tokens`), whatever
names the map holds and in whatever order: of a longer word, no part is ever taken for a table. -/

namespace SqlRoutine.Renaming

open List Option Text

variable {c : Char} {after before : List Text} {prev : Option Char} {s w : Text}

variable {r : Renaming}

/-! ### The rule -/

/-- **The tokens of a line**: the longest runs of word characters, and every other character alone. -/
def tokens (line : Text) : List Text := line.splitBy fun a b => isWord a && isWord b

/-- The token is the name of a schema, in any case. -/
def isSchema (r : Renaming) (w : Text) : Bool := r.schemaWords.any fun s => s.lower == w.lower

/-- The token is the name of a table of the map, in any case. -/
def isTable (r : Renaming) (w : Text) : Bool := (r.map.table? w).isSome

/-- A place **stands free** at the start of the line and after most tokens. The tokens before a place are
given with the nearest first. -/
def isFree (before : List Text) : Bool :=
  before.head?.all fun w => w != ['.'] && w != ['@'] && w != ['#']

/-- The place stands behind a dot and a schema that stands free. -/
def isQualified (r : Renaming) : (before : List Text) → Bool
  | ['.'] :: s :: before => r.isSchema s && isFree before
  | _ => false

/-- A table comes next that is qualified by what stands before it. -/
def qualifiesNext (r : Renaming) (before after : List Text) : Bool :=
  r.isQualified before && after.head?.any r.isTable

/-- A qualified table comes next, or after the next token. -/
def isPending (r : Renaming) (before : List Text) : (after : List Text) → Bool
  | [] => false
  | w :: after => r.qualifiesNext before (w :: after) || r.qualifiesNext (w :: before) after

/-- **The new name of a table**, with its schema if there is one and it needs mention. -/
def newName (r : Renaming) (t : NewTable) : Text :=
  if t.schema ≠ [] ∧ t.schema.lower ≠ r.schema.lower then t.schema ++ '.' :: t.name else t.name

/-- **What becomes of a token** between other tokens. -/
def renamedToken (r : Renaming) (before : List Text) (w : Text) (after : List Text) : Text :=
  match r.map.table? w with
  | some t => if isFree before || r.isQualified before then r.newName t else w
  | none => if r.isPending (w :: before) after then [] else w

/-- What becomes of the tokens of a line from a place on. -/
def renamedTokens (r : Renaming) : (before after : List Text) → Text
  | _, [] => []
  | before, w :: after => r.renamedToken before w after ++ renamedTokens r (w :: before) after

/-! ### The tokens of pieces -/

/-- The tokens of a piece. -/
def Piece.tokens : Piece → List Text
  | sign c => [[c]]
  | word w => [w]
  | reference none table => [table]
  | reference (some schema) table => [schema, ['.'], table]

section

variable {w z : Text}

theorem tokens_sign (hc : isWord c = false) (z : Text) : tokens (c :: z) = [c] :: tokens z := by
  have happend : tokens ([c] ++ z) = tokens [c] ++ tokens z := by
    refine splitBy_append fun a ha b _ => ?_
    obtain rfl : c = a := by simpa using ha
    rw [hc, Bool.false_and]
  exact happend

theorem tokens_run (hne : w ≠ []) (hw : w.all isWord) (hz : atWordEnd z) :
    tokens (w ++ z) = w :: tokens z := by
  have hall := List.all_eq_true.mp hw
  have hchain : w.IsChain fun a b => (isWord a && isWord b) := by
    refine (List.Pairwise.imp_of_mem (R := fun _ _ => True) (fun ha hb _ => ?_)
      (pairwise_of_forall fun _ _ => trivial)).isChain
    rw [hall _ ha, hall _ hb, Bool.and_true]
  have happend : tokens (w ++ z) = tokens w ++ tokens z := by
    refine splitBy_append fun a _ b hb => ?_
    cases z with
    | nil => cases hb
    | cons c z =>
      obtain rfl : c = b := Option.some.inj hb
      rw [atWordEnd, Bool.not_eq_true'] at hz
      rw [hz, Bool.and_false]
  rw [happend, tokens, splitBy_of_isChain hne hchain]
  rfl

theorem tokens_word (hw : isIdentifier w) (hz : atSign z) :
    tokens (w ++ z) = w :: tokens z :=
  tokens_run (isIdentifier_iff.mp hw).1 (all_isWord_of_identifier hw)
    (atWordEnd_of_atSign hz)

/-- **The tokens of a line are those of its pieces.** -/
theorem Scanned.tokens_write {ps : List Piece} (h : Scanned r prev ps) :
    tokens (write ps) = ps.flatMap Piece.tokens := by
  induction h with
  | nil => rfl
  | @sign prev c ps _ sign _ _ _ ih =>
    rw [write_cons, flatMap_cons, ← ih]
    exact tokens_sign sign (write ps)
  | @word prev w ps isIdentifier _ next _ rest ih =>
    rw [write_cons, flatMap_cons, ← ih]
    exact tokens_word isIdentifier (rest.atSign_write next)
  | @reference prev schema table ps _ names next rest ih =>
    have htable := tokens_word names.isIdentifier (rest.atSign_write next)
    rw [write_cons, flatMap_cons, ← ih]
    cases schema with
    | none => exact htable
    | some s =>
      have htext : (Piece.reference (some s) table).text ++ write ps =
          s ++ '.' :: (table ++ write ps) := by simp [Piece.text]
      rw [htext, tokens_word (names.schema s rfl).1 rfl, tokens_sign rfl, htable]
      rfl

end

/-! ### The tokens around a place -/

theorem isSchema_iff : r.isSchema w ↔ w.lower ∈ r.schemas := by
  rw [isSchema, List.any_eq_true, mem_schemas_iff]
  simp only [beq_iff_eq]
  exact exists_congr fun s => and_congr_right fun _ => eq_comm

theorem isTable_iff : r.isTable w ↔ w.lower ∈ r.map.tableNames := by
  rw [isTable, NameMap.table?, mem_tableNames_iff]
  constructor
  · intro h
    obtain ⟨t, ht⟩ := isSome_iff_exists.mp h
    obtain ⟨l₁, l₂, hl, -⟩ := lookup_eq_some_iff.mp ht
    exact ⟨(w.lower, t), by rw [hl]; simp, rfl⟩
  · rintro ⟨t, ht, hkey⟩
    by_contra hnone
    rw [Bool.not_eq_true, isSome_eq_false_iff, isNone_iff_eq_none,
      List.lookup_eq_none_iff] at hnone
    exact absurd (hnone t ht) (by simp [hkey])

/-- The last of the tokens before a place ends with the character `prev`. -/
inductive Follows : Option Char → List Text → Prop
  | start : Follows none []
  | sign {c : Char} (before : List Text) (sign : isWord c = false) (closing : c ≠ ']') :
      Follows (some c) ([c] :: before)
  | word {w : Text} (before : List Text) (isIdentifier : isIdentifier w) :
      Follows (some '_') (w :: before)

theorem Follows.isFree_eq (h : Follows prev before)
    (hstart : atWordStart prev) : isFree before = !prev.any isQualifier := by
  cases h with
  | start => rfl
  | @sign c before sign closing =>
    rw [Bool.eq_iff_iff]
    simp [isFree, isQualifier, sign, closing]
  | word => cases hstart

theorem isQualified_of_ne (hw : w ≠ ['.']) (before : List Text) :
    r.isQualified (w :: before) = false := by
  unfold isQualified
  split
  · next heq => exact absurd (List.cons.inj heq).1 hw
  · rfl

theorem isQualified_cons {d : Text} :
    r.isQualified (d :: s :: before) ↔ d = ['.'] ∧ r.isSchema s ∧ isFree before := by
  by_cases hd : d = ['.']
  · subst hd
    rw [isQualified, Bool.and_eq_true, and_iff_right rfl]
  · rw [isQualified_of_ne hd]
    exact iff_of_false Bool.false_ne_true fun h => hd h.1

theorem isQualified_of_not_schema (hs : r.isSchema s = false) (before : List Text) :
    r.isQualified (w :: s :: before) = false := by
  rw [← Bool.not_eq_true, isQualified_cons, hs]
  exact fun h => Bool.false_ne_true h.2.1

theorem ne_dot_of_identifier (hw : isIdentifier w) : w ≠ ['.'] := by
  rintro rfl
  cases hw

theorem lower_sign_not_mem (hascii : isAscii c) (hc : isWord c = false)
    {names : List Text} (h : ∀ k ∈ names, isIdentifier k ∧ k.lower = k) :
    lower [c] ∉ names := by
  have hlower : lower [c] = [c.toLower] := lower_of_ascii (by simp [hascii])
  intro hin
  have hid := (h _ hin).1
  rw [hlower, isIdentifier] at hid
  simp [isAsciiWord, (toLower_of_ascii hascii).1, hc] at hid

theorem writtenTable_eq_newName (r : Renaming) (t : NewTable) : r.writtenTable t = r.newName t := by
  unfold writtenTable newName
  by_cases hschema : t.schema = []
  · simp [hschema]
  · by_cases hsame : t.schema.lower = r.schema.lower
    · simp [hsame]
    · simp [hschema, hsame]

/-! ### What becomes of the tokens -/

section

variable {prev : Option Char} {before : List Text} {ps : List Piece}

theorem isPending_cons : r.isPending before (w :: after) = false ↔
    r.qualifiesNext before (w :: after) = false ∧ r.qualifiesNext (w :: before) after = false := by
  rw [isPending, Bool.or_eq_false_iff]

theorem isPending_nil (after : List Text) : r.isPending [] after = false := by
  have hone : ∀ w : Text, r.isQualified [w] = false := by
    intro w
    unfold isQualified
    split
    · next heq => cases heq
    · rfl
  cases after with
  | nil => rfl
  | cons w after =>
    rw [isPending_cons, qualifiesNext, qualifiesNext, hone]
    exact ⟨rfl, rfl⟩

/-- Behind a token that is no dot, only a table after the next token can be pending. -/
theorem isPending_of_ne (hw : w ≠ ['.'])
    (h : ∀ d after', after = d :: after' → r.qualifiesNext (d :: w :: before) after' = false) :
    r.isPending (w :: before) after = false := by
  cases after with
  | nil => rfl
  | cons d after =>
    refine isPending_cons.mpr ⟨?_, h d after rfl⟩
    rw [qualifiesNext, isQualified_of_ne hw, Bool.false_and]

theorem isPending_of_not_schema (hw : w ≠ ['.']) (hschema : r.isSchema w = false)
    (after : List Text) : r.isPending (w :: before) after = false := by
  refine isPending_of_ne hw fun d after' _ => ?_
  rw [qualifiesNext, isQualified_of_not_schema hschema, Bool.false_and]

variable (hr : r.WordNames)
include hr

theorem isSchema_of_isTable (h : w.lower ∈ r.map.tableNames) : r.isSchema w = false := by
  rw [← Bool.not_eq_true, isSchema_iff]
  exact hr.disjoint _ h

/-- A sign is kept. -/
theorem renamedToken_sign (hascii : isAscii c) (hc : isWord c = false)
    (hpending : r.isPending before ([c] :: after) = false) :
    r.isPending ([c] :: before) after = false ∧ r.renamedToken before [c] after = [c] := by
  have htable : r.isTable [c] = false := by
    rw [← Bool.not_eq_true, isTable_iff]
    exact lower_sign_not_mem hascii hc hr.tables
  have hschema : r.isSchema [c] = false := by
    rw [← Bool.not_eq_true, isSchema_iff]
    exact lower_sign_not_mem hascii hc hr.schemas
  have hnext : r.isPending ([c] :: before) after = false := by
    cases after with
    | nil => rfl
    | cons w after =>
      refine isPending_cons.mpr ⟨(isPending_cons.mp hpending).2, ?_⟩
      rw [qualifiesNext, isQualified_of_not_schema hschema, Bool.false_and]
  refine ⟨hnext, ?_⟩
  rw [isTable, isSome_eq_false_iff, isNone_iff_eq_none] at htable
  rw [renamedToken, htable, hnext]
  rfl

/-- A table that comes next after a dot is a word of its own. -/
theorem Scanned.exists_word (h : Scanned r (some '.') ps)
    (htable : (ps.flatMap Piece.tokens).head?.any r.isTable) :
    ∃ w rest, ps = .word w :: rest ∧ w.lower ∈ r.map.tableNames := by
  cases h with
  | nil => cases htable
  | sign ascii sign =>
    refine absurd (isTable_iff.mp htable) ?_
    exact lower_sign_not_mem ascii sign hr.tables
  | @word _ w ps => exact ⟨w, ps, rfl, isTable_iff.mp htable⟩
  | reference start => cases start

/-- **A word that is no reference is kept.** -/
theorem Scanned.renamedToken_word (h : Scanned r prev (.word w :: ps))
    (hfollows : Follows prev before)
    (hpending : r.isPending before (w :: ps.flatMap Piece.tokens) = false) :
    r.isPending (w :: before) (ps.flatMap Piece.tokens) = false ∧
      r.renamedToken before w (ps.flatMap Piece.tokens) = w := by
  cases h with
  | word isIdentifier start next other rest =>
    have hfree := hfollows.isFree_eq start
    have hnext : r.isPending (w :: before) (ps.flatMap Piece.tokens) = false := by
      refine isPending_of_ne (ne_dot_of_identifier isIdentifier) fun d after' hafter => ?_
      rw [← Bool.not_eq_true, qualifiesNext, Bool.and_eq_true, isQualified_cons]
      rintro ⟨⟨rfl, hschema, hbefore⟩, htable⟩
      have hprev : prev.any isQualifier = false := by
        rwa [hfree, Bool.not_eq_true'] at hbefore
      refine (other hprev).2 ⟨isSchema_iff.mp hschema, ?_⟩
      cases rest with
      | nil => cases hafter
      | @sign _ c ps' _ _ _ _ rest =>
        obtain ⟨hc, rfl⟩ := List.cons.inj hafter
        obtain rfl : c = '.' := (List.cons.inj hc).1
        obtain ⟨table, rest', rfl, hmem⟩ := rest.exists_word hr htable
        exact ⟨table, rest', rfl, hmem⟩
      | word => cases next
      | reference => cases next
    refine ⟨hnext, ?_⟩
    rw [renamedToken, hnext]
    cases htable : r.map.table? w with
    | none => rfl
    | some t =>
      have hin : r.isTable w := by rw [isTable, htable]; rfl
      have hbound : prev.any isQualifier := by
        by_contra hprev
        exact (other (Bool.eq_false_of_not_eq_true hprev)).1 (isTable_iff.mp hin)
      have hqualified := (isPending_cons.mp hpending).1
      rw [qualifiesNext, head?_cons, any_some, hin, Bool.and_true] at hqualified
      rw [hbound] at hfree
      dsimp only
      rw [hfree, hqualified]
      rfl

/-- **A reference gives way to the new name of its table.** -/
theorem Scanned.renamedTokens_reference {schema : Option Text} {table : Text}
    (h : Scanned r prev (.reference schema table :: ps)) (hfollows : Follows prev before) :
    ∃ before', Follows (some '_') before' ∧ r.isPending before' (ps.flatMap Piece.tokens) = false ∧
      r.renamedTokens before ((Piece.reference schema table).tokens ++ ps.flatMap Piece.tokens) =
        (r.renamedTable (.reference schema table)).text ++
          r.renamedTokens before' (ps.flatMap Piece.tokens) := by
  cases h with
  | reference start names next rest =>
    obtain ⟨t, ht, -⟩ := names.exists_table
    have hstart : atWordStart prev := by
      cases prev with
      | none => rfl
      | some c =>
        rw [any_some, isQualifier] at start
        simp only [Bool.or_eq_false_iff] at start
        rw [atWordStart, start.1.1.1.1]
        rfl
    have hfree : isFree before := by rw [hfollows.isFree_eq hstart, start]; rfl
    have hnot := isSchema_of_isTable hr names.table
    have hdot := ne_dot_of_identifier names.isIdentifier
    rw [renamedTable_reference schema ht, ← writtenTable_eq, writtenTable_eq_newName]
    cases schema with
    | none =>
      refine ⟨table :: before, .word before names.isIdentifier, isPending_of_not_schema hdot hnot _, ?_⟩
      rw [Piece.tokens, singleton_append, renamedTokens, renamedToken, ht]
      dsimp only
      rw [hfree]
      rfl
    | some s =>
      obtain ⟨hid, hschema⟩ := names.schema s rfl
      rw [← isSchema_iff] at hschema
      have hqualified : r.isQualified (['.'] :: s :: before) :=
        isQualified_cons.mpr ⟨rfl, hschema, hfree⟩
      have hnext : ∀ after, r.qualifiesNext (['.'] :: s :: before) (table :: after) := by
        intro after
        rw [qualifiesNext, hqualified, Bool.true_and, head?_cons, any_some, isTable, ht]
        rfl
      have hother : r.map.table? s = none := by
        rw [← isNone_iff_eq_none, ← isSome_eq_false_iff, ← Bool.not_eq_true]
        intro hin
        rw [isSchema_of_isTable hr (isTable_iff.mp hin)] at hschema
        cases hschema
      have hsign : r.map.table? ['.'] = none := by
        rw [← isNone_iff_eq_none, ← isSome_eq_false_iff, ← Bool.not_eq_true]
        exact fun hin => lower_sign_not_mem rfl rfl hr.tables (isTable_iff.mp hin)
      have hschemaDropped : ∀ after, r.renamedToken before s (['.'] :: table :: after) = [] := by
        intro after
        rw [renamedToken, hother, isPending, hnext, Bool.or_true]
        rfl
      have hdotDropped : ∀ after, r.renamedToken (s :: before) ['.'] (table :: after) = [] := by
        intro after
        rw [renamedToken, hsign, isPending, hnext, Bool.true_or]
        rfl
      have hrenamed : ∀ after, r.renamedToken (['.'] :: s :: before) table after = r.newName t := by
        intro after
        rw [renamedToken, ht, hqualified, Bool.or_true]
        rfl
      refine ⟨table :: ['.'] :: s :: before, .word _ names.isIdentifier,
        isPending_of_not_schema hdot hnot _, ?_⟩
      rw [Piece.tokens, cons_append, cons_append, singleton_append, renamedTokens,
        renamedTokens, renamedTokens, hschemaDropped, hdotDropped, hrenamed]
      rfl

/-- **The tokens become what the pieces become.** -/
theorem Scanned.renamedTokens_eq (h : Scanned r prev ps) (hfollows : Follows prev before)
    (hpending : r.isPending before (ps.flatMap Piece.tokens) = false) :
    r.renamedTokens before (ps.flatMap Piece.tokens) = write (ps.map r.renamedTable) := by
  induction h generalizing before with
  | nil => rfl
  | @sign prev c ps ascii sign opening closing rest ih =>
    rw [flatMap_cons, Piece.tokens, singleton_append] at hpending ⊢
    obtain ⟨hnext, hkept⟩ := renamedToken_sign hr ascii sign hpending
    rw [renamedTokens, hkept, ih (.sign before sign closing) hnext]
    rfl
  | @word prev w ps isIdentifier start next other rest ih =>
    rw [flatMap_cons, Piece.tokens, singleton_append] at hpending ⊢
    obtain ⟨hnext, hkept⟩ := Scanned.renamedToken_word hr
      (.word isIdentifier start next other rest) hfollows hpending
    rw [renamedTokens, hkept, ih (.word before isIdentifier) hnext]
    rfl
  | @reference prev schema table ps start names next rest ih =>
    obtain ⟨before', hfollows', hnext, hrenamed⟩ := Scanned.renamedTokens_reference hr
      (.reference start names next rest) hfollows
    rw [flatMap_cons, hrenamed, ih hfollows' hnext]
    rfl

end

/-- **Tables are renamed as whole tokens.** In a line of ASCII characters without square brackets, every
token becomes what the rule says, if all names are identifiers and no schema has the name of a table. -/
theorem writeLine_tokens {entries : List NameEntry} (hmap : r.map = NameMap.ofEntries entries)
    (hr : r.IdentifierNames) {line : Text} (hascii : line.all Text.isAscii = true)
    (hplain : Unbracketed line) :
    (r.resolveLine line).map r.writeLine = .ok (r.renamedTokens [] (tokens line)) := by
  have hnames := hr.wordNames hmap
  obtain ⟨ps, hps, rfl⟩ := exists_scanned r line hascii hplain none (.inl rfl)
  rw [hps.tokens_write, hps.renamedTokens_eq hnames .start (isPending_nil _), resolveLine_write hnames hps,
    Except.map, writeLine_resolved hps]

theorem identifierNames_jobs : jobsRenaming.IdentifierNames where
  schemas := by decide
  tables := by decide
  disjoint := by decide

/-- Free tables, qualified ones and a longer word, beside a column, a variable and an unknown schema. -/
theorem writeLine_tokens_jobs :
    (jobsRenaming.resolveLine "DBO.t_jobs,T_Jobs.State, T_Jobs2 @T_Jobs x.T_Jobs".toList).map
        jobsRenaming.writeLine =
      .ok "sw.t_jobs,sw.t_jobs.State, T_Jobs2 @T_Jobs x.T_Jobs".toList := by
  rw [writeLine_tokens rfl identifierNames_jobs (by decide) ⟨by decide, by decide⟩]
  exact congrArg Except.ok (by decide)

end SqlRoutine.Renaming
