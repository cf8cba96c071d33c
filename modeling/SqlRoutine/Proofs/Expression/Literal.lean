import SqlRoutine.Expression.Literal
import SqlRoutine.Proofs.Code.Quoting
import SqlRoutine.Proofs.Text.Stop

/-! # What the built-in renames do to a line

With the built-in functions only, `literal` applies a list of **rules** one after the other
(`literal_eq`). A rule is a record: the words that it asks for, what has to follow them, and the
replacement. All that is needed of the rules is checked on the list (`rules_plain`), so a line keeps
the properties that every such rule keeps:

* a text that no rule asks for is passed over (`literal_passed`);
* a text without blanks and parentheses is renamed on its own (`literal_append`);
* no line ends and no inline comments arise (`literal_oneLine`, `literal_noComment`). -/

namespace SqlRoutine.Expression

open Code List Option Text

variable {P : Char → Bool} {e : Ending} {prev : Option Char} {b out rest s t : Text}

/-! ### Rules -/

/-- What has to follow the words of a rule. -/
inductive Ending where
  /-- A parenthesis, perhaps after blanks. -/
  | opened
  /-- Two parentheses. -/
  | emptyCall
  /-- The end of a word. -/
  | wordEnd
  | anything
  deriving DecidableEq

/-- What is left after the ending. -/
def Ending.read? : Ending → Text → Option Text
  | .opened, t => char? '(' t.trimStart
  | .emptyCall, t => (char? '(' t.trimStart).bind fun rest => char? ')' rest.trimStart
  | .wordEnd, t => if atWordEnd t then some t else none
  | .anything, t => some t

/-- A rule: one of the words, with the ending, gives way to the replacement. -/
structure Rule where
  /-- The words have to stand where a word may start. -/
  atStart : Bool
  words : List Text
  ending : Ending
  replacement : Text

namespace Rule

/-- What is left after what the rule asks for. -/
def read? (r : Rule) (t : Text) : Option Text :=
  r.words.findSome? fun word => (keyword? word t).bind r.ending.read?

/-- The finder of the rule. -/
def finder (r : Rule) : Finder Text := fun prev t =>
  if !r.atStart || atWordStart prev then (r.read? t).map (r.replacement, ·) else none

/-- The rule of a renamed function. -/
def ofFunction (f : Text × Text) : Rule := ⟨false, [f.1], .anything, f.2⟩

end Rule

/-- The rules for calls and types. -/
def wordRules : List Rule :=
  [⟨true, ["IsNull".toList], .opened, "Coalesce(".toList⟩,
    ⟨true, ["smalldatetime".toList, "datetime".toList], .wordEnd, "timestamp".toList⟩,
    ⟨true, ["GetDate".toList], .emptyCall, "CURRENT_TIMESTAMP".toList⟩,
    ⟨true, ["tinyint".toList, "smallint".toList], .wordEnd, "int".toList⟩,
    ⟨true, ["SUSER_SNAME".toList], .emptyCall, "SESSION_USER".toList⟩]

/-- **The rules**, in the order in which they are applied. -/
def rules : List Rule := wordRules ++ Profile.builtInFunctionNames.map Rule.ofFunction

/-- Applies a rule to a text. -/
def applyRule (t : Text) (r : Rule) : Text := t.replaceAll r.finder

theorem renameFunction_eq {f : Text × Text} (h : f.1.isEmpty = false) (t : Text) :
    renameFunction f.1 f.2 t = applyRule t (.ofFunction f) := by
  have hfinder : (Rule.ofFunction f).finder = fun _ t => (keyword? f.1 t).map (f.2, ·) := by
    funext prev t
    simp only [Rule.finder, Rule.read?, Rule.ofFunction, Bool.not_false, Bool.true_or, if_true,
      findSome?_cons, findSome?_nil, Ending.read?]
    cases keyword? f.1 t <;> rfl
  rw [renameFunction, h, applyRule, hfinder]
  rfl

theorem foldl_renameFunction : ∀ (fs : List (Text × Text)) (t : Text),
    (fs.all fun f => !f.1.isEmpty) →
      fs.foldl (fun t f => renameFunction f.1 f.2 t) t = (fs.map Rule.ofFunction).foldl applyRule t
  | [], _, _ => rfl
  | f :: fs, t, h => by
    rw [all_cons, Bool.and_eq_true, Bool.not_eq_true'] at h
    rw [map_cons, foldl_cons, foldl_cons, renameFunction_eq h.1,
      foldl_renameFunction fs _ h.2]

theorem wordFinder_eq {scan : Text → Option Text} {words : List Text} {ending : Ending}
    (h : ∀ t, scan t = words.findSome? fun word => (keyword? word t).bind ending.read?)
    (replacement : Text) :
    wordFinder scan replacement = (Rule.mk true words ending replacement).finder := by
  funext prev t
  simp only [wordFinder, Rule.finder, Rule.read?, h, Bool.not_true, Bool.false_or]

theorem literalFinders_eq : literalFinders = wordRules.map Rule.finder := by
  have hcall : ∀ function t, callOf? function t =
      [function].findSome? fun word => (keyword? word t).bind Ending.opened.read? := by
    intro function t
    rw [findSome?_singleton]
    rfl
  have hempty : ∀ function t, emptyCallOf? function t =
      [function].findSome? fun word => (keyword? word t).bind Ending.emptyCall.read? := by
    intro function t
    rw [findSome?_singleton, emptyCallOf?, callOf?, bind_assoc]
    rfl
  simp only [literalFinders, wordRules, map_cons, map_nil, wordFinder_eq (hcall _),
    wordFinder_eq (hempty _)]
  rfl

/-- **With the built-in functions only, a line is renamed by the rules.** -/
theorem literal_eq {p : Profile} (hp : p.functionNames = Profile.builtInFunctionNames) (t : Text) :
    literal p t = rules.foldl applyRule t := by
  have hwords : literalFinders.foldl (fun t find => replaceAll find t) t =
      wordRules.foldl applyRule t := by
    rw [literalFinders_eq, foldl_map]
    rfl
  unfold literal
  dsimp only
  rw [hp, hwords, foldl_renameFunction _ _ (by decide), rules, foldl_append]

/-! ### Letters that names start with -/

theorem ascii_decimal : ∀ n < 128, isDecimal (Char.ofNat n).toLower = isDecimal (Char.ofNat n) := by
  decide

theorem isDecimal_asciiForms : (asciiForms.any isDecimal) = false := by decide

theorem isInitial_of_sameLetter {c k : Char} (hk : isAscii k) (hinitial : isInitial k)
    (h : letterKey c = letterKey k) : isInitial c := by
  obtain ⟨hword, hdecimal⟩ := isInitial_iff.mp hinitial
  refine isInitial_iff.mpr ⟨isWord_of_sameLetter (isAsciiWord_iff.mpr ⟨hk, hword⟩) h, ?_⟩
  have hlower : ∀ {d : Char}, isAscii d → isDecimal d.toLower = isDecimal d := by
    intro d hd
    have hcase := ascii_decimal d.toNat (of_decide_eq_true hd)
    rwa [Char.ofNat_toNat] at hcase
  by_cases hc : c.toNat < 128
  · have hascii : isAscii c := decide_eq_true hc
    rw [letterKey_of_ascii hascii, letterKey_of_ascii hk] at h
    rw [← hlower hascii, h, hlower hk, hdecimal]
  · have hkey : (letterKey c).toNat < 128 := by
      rw [h, letterKey_of_ascii hk]
      exact of_decide_eq_true (toLower_of_ascii hk).2.1
    have hmem := mem_asciiForms (c := c) (by omega) hkey
    exact List.any_eq_false.mp isDecimal_asciiForms c hmem |> Bool.eq_false_iff.mpr

/-! ### What the endings read -/

/-- **The text is an ending**, before what follows it. -/
def Ending.Closes : Ending → Text → Text → Prop
  | .opened, e, _ => ∃ b, Text.isBlank b ∧ e = b ++ ['(']
  | .emptyCall, e, _ => ∃ b b', Text.isBlank b ∧ Text.isBlank b' ∧
      e = b ++ '(' :: (b' ++ [')'])
  | .wordEnd, e, after => e = [] ∧ atWordEnd after
  | .anything, e, _ => e = []

/-- **An ending is read off the front of a text just when the text starts with one.** -/
theorem Ending.read?_eq_some_iff {e : Ending} {t rest : Text} :
    e.read? t = some rest ↔ ∃ m, t = m ++ rest ∧ e.Closes m rest := by
  cases e with
  | opened =>
    rw [Ending.read?, char?_trimStart_eq_some_iff (by decide)]
    constructor
    · rintro ⟨b, hb, rfl⟩
      exact ⟨b ++ ['('], by simp, b, hb, rfl⟩
    · rintro ⟨m, rfl, b, hb, rfl⟩
      exact ⟨b, hb, by simp⟩
  | emptyCall =>
    rw [Ending.read?, bind_eq_some_iff]
    constructor
    · rintro ⟨inner, hinner, hrest⟩
      obtain ⟨b, hb, rfl⟩ := (char?_trimStart_eq_some_iff (by decide)).mp hinner
      obtain ⟨b', hb', rfl⟩ := (char?_trimStart_eq_some_iff (by decide)).mp hrest
      exact ⟨b ++ '(' :: (b' ++ [')']), by simp, b, b', hb, hb', rfl⟩
    · rintro ⟨m, rfl, b, b', hb, hb', rfl⟩
      refine ⟨b' ++ ')' :: rest, (char?_trimStart_eq_some_iff (by decide)).mpr ⟨b, hb, by simp⟩, ?_⟩
      exact (char?_trimStart_eq_some_iff (by decide)).mpr ⟨b', hb', rfl⟩
  | wordEnd =>
    rw [Ending.read?, ite_none_right_eq_some, Option.some.injEq]
    constructor
    · rintro ⟨hend, rfl⟩
      exact ⟨[], rfl, rfl, hend⟩
    · rintro ⟨m, rfl, rfl, hend⟩
      exact ⟨hend, rfl⟩
  | anything =>
    rw [Ending.read?, Option.some.injEq]
    constructor
    · rintro rfl
      exact ⟨[], rfl, rfl⟩
    · rintro ⟨m, rfl, rfl⟩
      rfl

theorem Ending.Closes.signs {m : Text} (h : e.Closes m rest) :
    ∀ c ∈ m, isBlank c ∨ c = '(' ∨ c = ')' := by
  intro c hc
  cases e with
  | opened =>
    obtain ⟨b, hb, rfl⟩ := h
    rcases mem_append.mp hc with hc | hc
    · exact .inl (isBlank_eq_true_iff.mp hb c hc)
    · exact .inr (.inl (mem_singleton.mp hc))
  | emptyCall =>
    obtain ⟨b, b', hb, hb', rfl⟩ := h
    simp only [mem_append, mem_cons, not_mem_nil, or_false] at hc
    rcases hc with hc | hc | hc | hc
    · exact .inl (isBlank_eq_true_iff.mp hb c hc)
    · exact .inr (.inl hc)
    · exact .inl (isBlank_eq_true_iff.mp hb' c hc)
    · exact .inr (.inr hc)
  | wordEnd =>
    obtain ⟨rfl, -⟩ := h
    cases hc
  | anything =>
    obtain rfl := h
    cases hc

namespace Rule

variable {r : Rule}

/-- A rule as a substitution. -/
def substitution (r : Rule) : Substitution := ⟨r.atStart, r.read?, r.replacement⟩

theorem read?_spec (h : r.read? t = some rest) :
    ∃ word ∈ r.words, ∃ m e, Spells word m ∧ t = m ++ (e ++ rest) ∧ r.ending.Closes e rest := by
  obtain ⟨word, hword, hread⟩ := exists_of_findSome?_eq_some h
  obtain ⟨left, hleft, hrest⟩ := bind_eq_some_iff.mp hread
  obtain ⟨m, hm, rfl⟩ := keyword?_eq_some_iff.mp hleft
  obtain ⟨e, rfl, he⟩ := Ending.read?_eq_some_iff.mp hrest
  exact ⟨word, hword, m, e, hm, rfl, he⟩

theorem finder_eq_some (h : r.finder prev t = some (out, rest)) :
    r.read? t = some rest ∧ out = r.replacement :=
  (Substitution.finder_eq_some_iff (s := r.substitution).mp h).2

/-! ### Names for names -/

/-- A rule that puts names in the places of names. -/
@[mk_iff]
structure Naming (r : Rule) : Prop where
  words : r.words.all (fun word => word.head?.any fun c => isAscii c && isInitial c)
  replacement : r.replacement.head?.any isInitial
  wordEnd : r.ending = .wordEnd → r.replacement.getLast?.any isWord
  anything : r.ending = .anything → ∀ word ∈ r.words, word.getLast? = some '('

instance (r : Rule) : Decidable r.Naming := decidable_of_iff' _ r.naming_iff

theorem getLast?_of_spells {word w : Text} (h : Spells word w) (hword : word.getLast? = some '(') :
    w.getLast? = some '(' := by
  have hlast := congrArg List.getLast? h
  rw [getLast?_map, getLast?_map, hword, map_some] at hlast
  obtain ⟨c, hc, hkey⟩ := map_eq_some_iff.mp hlast
  rw [hc, eq_of_letterKey_eq (a := '(') (by decide) rfl hkey]

theorem Naming.named (hr : r.Naming) : r.substitution.Named where
  reads := by
    intro t rest hscan
    obtain ⟨word, hword, w, e, hw, rfl, hcloses⟩ := read?_spec hscan
    have hfirst := List.all_eq_true.mp hr.words word hword
    obtain ⟨k, ks, rfl⟩ : ∃ k ks, word = k :: ks := by
      cases word with
      | nil => cases hfirst
      | cons k ks => exact ⟨k, ks, rfl⟩
    rw [head?_cons, any_some, Bool.and_eq_true] at hfirst
    obtain ⟨c, m, rfl⟩ : ∃ c m, w = c :: m := by
      cases w with
      | nil => cases hw
      | cons c m => exact ⟨c, m, rfl⟩
    have hinitial : isInitial c :=
      isInitial_of_sameLetter hfirst.1 hfirst.2 (List.cons.inj hw).1
    refine ⟨c, m ++ e, by simp, hinitial, fun hroom => ?_⟩
    have hroom : atWordStart r.replacement.getLast? := hroom
    cases hending : r.ending with
    | opened =>
      rw [hending] at hcloses
      obtain ⟨b, -, rfl⟩ := hcloses
      rw [← cons_append, ← append_assoc, getLast?_append]
      rfl
    | emptyCall =>
      rw [hending] at hcloses
      obtain ⟨b, b', -, -, rfl⟩ := hcloses
      have hlast : (c :: (m ++ (b ++ '(' :: (b' ++ [')'])))).getLast? = some ')' := by
        rw [getLast?_eq_some_iff]
        exact ⟨c :: (m ++ (b ++ '(' :: b')), by simp⟩
      rw [hlast]
      rfl
    | wordEnd =>
      have hlast := hr.wordEnd hending
      cases hc : r.replacement.getLast? with
      | none => rw [hc] at hlast; cases hlast
      | some d =>
        rw [hc, any_some] at hlast
        simp [hc, atWordStart, hlast] at hroom
    | anything =>
      rw [hending] at hcloses
      obtain rfl : e = [] := hcloses
      rw [append_nil, getLast?_of_spells hw (hr.anything hending _ hword)]
      rfl
  writes := hr.replacement

end Rule

theorem rules_naming : ∀ r ∈ rules, r.Naming := by decide +kernel

/-! ### What the rules have in common -/

/-- A word without blanks, quotes and dashes, in whatever forms its letters are written. -/
def isPlainWord (word : Text) : Bool :=
  !word.isEmpty && word.all fun c =>
    !isBlank (letterKey c) && letterKey c != quote && letterKey c != '-'

theorem isPlainWord_iff {word : Text} :
    isPlainWord word ↔ word ≠ [] ∧ ∀ c ∈ word,
      isBlank (letterKey c) = false ∧ letterKey c ≠ quote ∧ letterKey c ≠ '-' := by
  simp [isPlainWord, and_assoc]

/-- A **plain** rule neither reads nor writes quotes and dashes, its words have no blanks, and it
writes no line end. A rule without an ending asks for a parenthesis itself. -/
@[mk_iff]
structure Rule.Plain (r : Rule) : Prop where
  words : r.words.all isPlainWord
  first : r.replacement.head?.any (fun c => !isBlank c && c != '(')
  bare : isBare r.replacement
  oneLine : '\n' ∉ r.replacement
  anything : r.ending = .anything → ∀ word ∈ r.words, '(' ∈ word
  wordEnd : r.ending = .wordEnd → r.replacement.all isWord

instance (r : Rule) : Decidable r.Plain := decidable_of_iff' _ r.plain_iff

theorem rules_plain : ∀ r ∈ rules, r.Plain := by decide +kernel

namespace Rule

variable {r : Rule}

theorem asksFor (r : Rule) : AsksFor r.finder r.words where
  word := by
    rintro prev t ⟨out, rest⟩ h
    obtain ⟨word, hword, m, e, hm, rfl, -⟩ := read?_spec (finder_eq_some h).1
    exact ⟨word, hword, e ++ rest, keyword?_append hm _⟩
  blind := by
    intro prev prev' t h
    unfold finder
    rw [h]

theorem Plain.word (hr : r.Plain) {word : Text} (h : word ∈ r.words) :
    word ≠ [] ∧ ∀ c ∈ word,
      isBlank (letterKey c) = false ∧ letterKey c ≠ quote ∧ letterKey c ≠ '-' :=
  isPlainWord_iff.mp (List.all_eq_true.mp hr.words word h)

theorem Plain.read (hr : r.Plain) (h : r.finder prev t = some (out, rest)) :
    ∃ m, m ≠ [] ∧ t = m ++ rest ∧ isBare m := by
  obtain ⟨word, hword, m, e, hm, rfl, he⟩ := read?_spec (finder_eq_some h).1
  obtain ⟨hne, hletters⟩ := hr.word hword
  refine ⟨m ++ e, ?_, (append_assoc ..).symm, List.all_eq_true.mpr fun c hc => ?_⟩
  · intro hnil
    rw [append_eq_nil_iff] at hnil
    rw [hnil.1, Spells, map_nil, eq_comm, map_eq_nil_iff] at hm
    exact hne hm
  · rw [Bool.and_eq_true, bne_iff_ne, bne_iff_ne]
    rcases mem_append.mp hc with hc | hc
    · have hkey : letterKey c ∈ word.map letterKey := hm ▸ List.mem_map_of_mem hc
      obtain ⟨d, hd, heq⟩ := List.mem_map.mp hkey
      obtain ⟨-, hquote, hdash⟩ := hletters d hd
      constructor
      · rintro rfl
        exact hquote heq
      · rintro rfl
        exact hdash heq
    · rcases he.signs c hc with hblank | rfl | rfl
      · constructor
        · rintro rfl
          cases hblank
        · rintro rfl
          cases hblank
      · decide
      · decide

theorem Plain.proper (hr : r.Plain) : Proper r.finder := fun _ _ _ _ h =>
  let ⟨m, hm, ht, _⟩ := hr.read h
  ⟨m, hm, ht⟩

theorem Plain.visible (hr : r.Plain) : r.words.all isVisible := by
  rw [List.all_eq_true]
  intro word hword
  obtain ⟨hne, hletters⟩ := hr.word hword
  obtain ⟨c, cs, rfl⟩ := exists_cons_of_ne_nil hne
  simp [isVisible, (hletters c mem_cons_self).1]

/-! ### Comments, line ends and blanks -/

section

variable (hr : r ∈ rules)
include hr

theorem noComment_applyRule (h : commentFrom false t = []) :
    commentFrom false (applyRule t r) = [] := by
  have hplain := rules_plain r hr
  -- a dash does not come to stand before another one, so the heads are part of the induction
  have hall := replaceFrom_induction hplain.proper (P := fun _ t out =>
    (out.head? = some '-' → t.head? = some '-') ∧
      ∀ quoted, commentFrom quoted t = [] → commentFrom quoted out = []) ?_ ?_ ?_ none t
  · exact hall.2 false h
  · intro prev
    exact ⟨id, fun _ => id⟩
  · intro prev c cs hfind ih
    refine ⟨id, fun quoted hcomment => ?_⟩
    rw [commentFrom_cons] at hcomment ⊢
    split_ifs at hcomment with hquote hdashes
    · rw [if_pos hquote]
      exact ih.2 _ hcomment
    · rw [if_neg hquote, if_neg ?_]
      · exact ih.2 _ hcomment
      · rw [Bool.and_eq_true, startsWith_dashes] at hdashes ⊢
        exact fun hnew => hdashes ⟨hnew.1, hnew.2.1, ih.1 hnew.2.2⟩
  · intro prev m out rest hm hfind ih
    obtain ⟨m', -, heq, hbare⟩ := hplain.read hfind
    obtain rfl := append_cancel_right heq
    obtain ⟨-, rfl⟩ := finder_eq_some hfind
    obtain ⟨c, cs, hreplacement, hinitial⟩ := (rules_naming r hr).named.replacement_eq
    have hreplacement : r.replacement = c :: cs := hreplacement
    have hfirst : c ≠ '-' := by
      rintro rfl
      exact absurd hinitial (by decide)
    refine ⟨fun hhead => ?_, fun quoted hcomment => ?_⟩
    · rw [hreplacement, cons_append, head?_cons] at hhead
      exact absurd (Option.some.inj hhead) hfirst
    · rw [commentFrom_append hbare] at hcomment
      rw [commentFrom_append hplain.bare]
      exact ih.2 quoted hcomment

theorem oneLine_applyRule (h : '\n' ∉ t) : '\n' ∉ applyRule t r := by
  have hplain := rules_plain r hr
  intro hin
  rcases mem_replaceFrom hplain.proper none t hin with hin | ⟨_, _, _, _, _, hfind, hin⟩
  · exact h hin
  · rw [(finder_eq_some hfind).2] at hin
    exact hplain.oneLine hin

theorem isBlank_applyRule (h : t.isBlank = false) : Text.isBlank (applyRule t r) = false := by
  have hnamed := (rules_naming r hr).named
  refine isBlank_replaceFrom hnamed.proper (fun _ _ _ _ hfind => ?_) none t h
  obtain ⟨c, cs, hreplacement, hc⟩ := hnamed.replacement_eq
  rw [(finder_eq_some hfind).2, show r.replacement = c :: cs from hreplacement, isBlank_cons,
    not_blank_of_isInitial hc, Bool.false_and]

end

end Rule

/-! ### Texts without blanks and parentheses -/

variable {r : Rule} {x z : Text}

/-- A text without blanks and parentheses. -/
def isToken (t : Text) : Bool := t.all fun c => !isBlank c && c != '('

/-- The text starts with a blank, and a parenthesis does not follow. It may be empty. -/
structure Separate (z : Text) : Prop where
  blank : z.head?.all isBlank
  notOpen : z.trimStart.head? ≠ some '('

theorem isToken_iff : isToken x ↔ ∀ c ∈ x, isBlank c = false ∧ c ≠ '(' := by
  simp [isToken, List.all_eq_true]

theorem tokenChar_of_isWord {c : Char} (h : isWord c) : isBlank c = false ∧ c ≠ '(' := by
  constructor
  · rw [← Bool.not_eq_true]
    intro hb
    rw [isWord_blank hb] at h
    cases h
  · rintro rfl
    cases h

theorem isToken_of_suffix {x' : Text} (hx : isToken x) (h : x' <:+ x) : isToken x' :=
  List.all_eq_true.mpr fun c hc => List.all_eq_true.mp hx c (h.subset hc)

theorem Separate.wordEnd (hz : Separate z) : z.head?.all (fun c => !isWord c) := by
  cases z with
  | nil => rfl
  | cons b z => simp [isWord_blank hz.blank]

theorem stops_keyword?_of_isBlank {word : Text} (hword : ∀ k ∈ word, isBlank (letterKey k) = false)
    (hz : z.head?.all isBlank) : Stops z (keyword? word) := by
  refine stops_keyword?_of_head fun k hk c hc => ?_
  rw [hc] at hz
  exact sameLetter_blank (hword k hk) hz

theorem char?_token (hx : isToken x) : char? '(' x.trimStart = none := by
  cases x with
  | nil => rfl
  | cons c cs =>
    obtain ⟨hblank, hopen⟩ := isToken_iff.mp hx c mem_cons_self
    rw [trimStart_of_head hblank, char?, if_neg hopen]

theorem Ending.read?_append (hx : isToken x) (hz : Separate z) :
    ∀ e : Ending, e.read? (x ++ z) = (e.read? x).map (· ++ z)
  | .opened => stops_sign_of_head hz.notOpen x
  | .emptyCall => by
    have hopen : char? '(' (x ++ z).trimStart = (char? '(' x.trimStart).map (· ++ z) :=
      stops_sign_of_head hz.notOpen x
    rw [Ending.read?, Ending.read?, hopen, char?_token hx]
    rfl
  | .wordEnd => stops_wordEnd_of_head hz.wordEnd x
  | .anything => rfl

theorem findSome?_congr {α β : Type} {f g : α → Option β} : ∀ {l : List α},
    (∀ a ∈ l, f a = g a) → l.findSome? f = l.findSome? g
  | [], _ => rfl
  | a :: l, h => by
    rw [findSome?_cons, findSome?_cons, h a mem_cons_self,
      findSome?_congr fun b hb => h b (mem_cons_of_mem a hb)]

section

variable (hr : r ∈ rules)
include hr

theorem Rule.read?_append (hx : isToken x) (hz : Separate z) :
    r.read? (x ++ z) = (r.read? x).map (· ++ z) := by
  unfold Rule.read?
  rw [map_findSome?]
  refine findSome?_congr fun word hword => ?_
  have hkeyword : Stops z (keyword? word) :=
    stops_keyword?_of_isBlank (fun k hk => (((rules_plain r hr).word hword).2 k hk).1) hz.blank
  rw [Function.comp_apply, hkeyword x]
  cases h : keyword? word x with
  | none => rfl
  | some rest =>
    obtain ⟨m, -, rfl⟩ := keyword?_eq_some_iff.mp h
    exact Ending.read?_append (isToken_of_suffix hx (suffix_append m rest)) hz r.ending

theorem Rule.applyRule_append (hx : isToken x) (hz : Separate z) :
    applyRule (x ++ z) r = applyRule x r ++ applyRule z r :=
  (rules_naming r hr).named.replaceAll_cut hz.wordEnd fun _ hsuffix =>
    read?_append hr (isToken_of_suffix hx hsuffix) hz

theorem Rule.separate_applyRule (hz : Separate z) : Separate (applyRule z r) := by
  have hnamed := (rules_naming r hr).named
  have hhead : (applyRule z r).head? = z.head? := (hnamed.replaceFrom_blind hz.wordEnd none).2
  refine ⟨hhead ▸ hz.blank, ?_⟩
  rcases hnamed.visible_replaceAll z with hsame | hnew
  · exact hsame ▸ hz.notOpen
  · obtain ⟨d, r', hreplacement, hd⟩ := hnamed.replacement_eq
    rw [hreplacement] at hnew
    intro hopen
    obtain rfl : d = '(' := Option.some.inj (hnew.symm.trans hopen)
    exact absurd hd (by decide)

theorem Rule.ending_of_token (hx : isToken x) (h : r.finder prev x = some (out, rest)) :
    r.ending = .wordEnd := by
  obtain ⟨word, hword, m, e, hm, rfl, he⟩ := Rule.read?_spec (Rule.finder_eq_some h).1
  have hopen : '(' ∉ m ++ (e ++ rest) := fun hin => (isToken_iff.mp hx _ hin).2 rfl
  cases hending : r.ending with
  | wordEnd => rfl
  | opened =>
    rw [hending] at he
    obtain ⟨b, -, rfl⟩ := he
    exact absurd (by simp) hopen
  | emptyCall =>
    rw [hending] at he
    obtain ⟨b, b', -, -, rfl⟩ := he
    exact absurd (by simp) hopen
  | anything =>
    have hlast := getLast?_of_spells hm ((rules_naming r hr).anything hending word hword)
    exact absurd (mem_append_left _ (mem_of_getLast? hlast)) hopen

/-- The characters of a token stay in a class that has all word characters. -/
theorem Rule.all_applyRule (hword : ∀ c, isWord c → P c) (hx : isToken x) (h : x.all P) :
    (applyRule x r).all P := by
  have hplain := rules_plain r hr
  rw [List.all_eq_true] at h ⊢
  intro c hc
  rcases mem_replaceFrom hplain.proper none x hc with hin | ⟨prev, s, out, rest, hs, hfind, hin⟩
  · exact h c hin
  · have hending := ending_of_token hr (isToken_of_suffix hx hs) hfind
    rw [(Rule.finder_eq_some hfind).2] at hin
    exact hword c (List.all_eq_true.mp (hplain.wordEnd hending) c hin)

end

/-! ### All rules -/

theorem foldl_applyRule_append : ∀ (rs : List Rule), (∀ r ∈ rs, r ∈ rules) → ∀ {x z : Text},
    isToken x → Separate z →
      rs.foldl applyRule (x ++ z) = rs.foldl applyRule x ++ rs.foldl applyRule z
  | [], _, _, _, _, _ => rfl
  | r :: rs, hrs, x, z, hx, hz => by
    have hr := hrs r mem_cons_self
    have hword : ∀ c, isWord c → (!isBlank c && c != '(') := by
      intro c hc
      simp [tokenChar_of_isWord hc]
    rw [foldl_cons, foldl_cons, foldl_cons, Rule.applyRule_append hr hx hz]
    exact foldl_applyRule_append rs (fun r' hr' => hrs r' (mem_cons_of_mem r hr'))
      (Rule.all_applyRule hr hword hx hx) (Rule.separate_applyRule hr hz)

/-- How the words start that the rules ask for. -/
def ruleStarts : List Text :=
  [['I', 's', 'N'], ['s', 'm', 'a', 'l', 'l'], ['d', 'a', 't', 'e'], ['G', 'e', 't'],
    ['t', 'i', 'n', 'y'], ['S', 'U', 'S', 'E', 'R'], ['d', 'b', 'o', '.']]

theorem rules_start : ∀ r ∈ rules, ∀ word ∈ r.words, ∃ start ∈ ruleStarts, start <+: word := by
  decide +kernel

theorem ignores_of_avoids (hs : avoids ruleStarts s) :
    ∀ r ∈ rules, Ignores r.finder s := fun r hr =>
  ⟨r.words, r.asksFor, (rules_plain r hr).visible, avoids_of_starts (rules_start r hr) hs⟩

variable {p : Profile} {t x z : Text} (hp : p.functionNames = Profile.builtInFunctionNames)
include hp

theorem literal_induction {P : Text → Prop} (h : ∀ r ∈ rules, ∀ t, P t → P (applyRule t r))
    (ht : P t) : P (literal p t) := by
  rw [literal_eq hp]
  exact List.foldlRecOn rules applyRule ht fun t ht r hr => h r hr t ht

theorem literal_noComment (h : commentFrom false t = []) :
    commentFrom false (literal p t) = [] :=
  literal_induction hp (P := fun t => commentFrom false t = [])
    (fun _ hr _ => Rule.noComment_applyRule hr) h

theorem literal_oneLine (h : '\n' ∉ t) : '\n' ∉ literal p t :=
  literal_induction hp (P := fun t => '\n' ∉ t) (fun _ hr _ => Rule.oneLine_applyRule hr) h

theorem literal_isBlank (h : t.isBlank = false) : Text.isBlank (literal p t) = false :=
  literal_induction hp (P := fun t => t.isBlank = false) (fun _ hr _ => Rule.isBlank_applyRule hr) h

theorem literal_separate (hz : Separate z) : Separate (literal p z) :=
  literal_induction hp (P := Separate) (fun _ hr _ => Rule.separate_applyRule hr) hz

theorem literal_all (hword : ∀ c, isWord c → P c)
    (htoken : ∀ c, P c → isBlank c = false ∧ c ≠ '(') (h : x.all P) :
    (literal p x).all P := by
  have hx : ∀ {x : Text}, x.all P → isToken x := fun h =>
    isToken_iff.mpr fun c hc => htoken c (List.all_eq_true.mp h c hc)
  exact literal_induction hp (P := fun x => x.all P)
    (fun _ hr _ h => Rule.all_applyRule hr hword (hx h) h) h

theorem literal_ne_nil (hx : isToken x) (hne : x ≠ []) : literal p x ≠ [] := by
  obtain ⟨c, cs, rfl⟩ := exists_cons_of_ne_nil hne
  have hblank : Text.isBlank (c :: cs) = false := by
    rw [isBlank_cons, (isToken_iff.mp hx c mem_cons_self).1, Bool.false_and]
  intro hnil
  have hkept := literal_isBlank hp hblank
  rw [hnil] at hkept
  cases hkept

/-- **A text without blanks and parentheses is renamed on its own.** -/
theorem literal_append (hx : isToken x) (hz : Separate z) :
    literal p (x ++ z) = literal p x ++ literal p z := by
  rw [literal_eq hp, literal_eq hp, literal_eq hp, foldl_applyRule_append rules (fun _ => id) hx hz]

/-- **A start that no rule asks for is passed over**, after an indentation. -/
theorem literal_passed (hb : b.isBlank) (hs : avoids ruleStarts s)
    (hend : s.getLast?.any isWord = false) (t : Text) :
    literal p (b ++ s ++ t) = b ++ s ++ literal p t := by
  rw [literal_eq hp, literal_eq hp]
  exact foldl_passed hb hend (ignores_of_avoids hs) t

theorem literal_avoids (hb : b.isBlank) (hs : avoids ruleStarts s) :
    literal p (b ++ s) = b ++ s := by
  refine literal_induction hp (P := fun t => t = b ++ s) (fun r hmem t ht => ?_) rfl
  rw [ht]
  exact replaceAll_ignored (ignores_of_avoids hs r hmem) hb

end SqlRoutine.Expression
