import SqlRoutine.Proofs.DataType.Spelling
import SqlRoutine.Proofs.Expression.Convert
import SqlRoutine.Proofs.Expression.Literal

/-! # What the conversion of an expression reads

A `varchar` is a word, a parenthesis, a length and a parenthesis, with blanks between them
(`varchar?_eq_some_iff`). The calls are read with their arguments, which are made of the text that they
are read from (`charIndex?_spec`, `convert?_spec`). So each finder of the conversion **takes something off
the front of the text and puts something in its place** that is not blank (`fills_conversionFinders`), and
brings no `@` of its own, if no type does when it is spelled anew (`keeps_conversionFinders`). -/

namespace SqlRoutine.DataType

open Expression Text
open List

variable {t rest : Text} {minimum : ℤ}

/-! ### What is read as a `varchar` -/

/-- The words for the type. -/
def varcharWords : List Text := ["nvarchar".toList, "varchar".toList]

/-- **The text writes the length**: `max` in any case, or decimal digits. -/
def Length.IsWritten : Length → Text → Prop
  | .max, l => Spells "max".toList l
  | .characters n, l => l ≠ [] ∧ l.all isDecimal = true ∧ n = decimalNumber l

theorem isDecimal_of_spells_max {l : Text} (h : Spells "max".toList l) :
    ∃ c l', l = c :: l' ∧ isDecimal c = false := by
  cases l with
  | nil => cases h
  | cons c l =>
    have hm : letterKey c = 'm' := (List.cons.inj h).1
    refine ⟨c, l, rfl, ?_⟩
    rcases eq_of_letterKey (k := 'm') rfl hm with rfl | rfl
    · rfl
    · rfl

/-- **A length is read off the front of a text**, digits as far as they go. -/
theorem length?_eq_some_iff {length : Length} (hrest : rest.head?.all (fun c => !isDecimal c) = true) :
    length? t = some (length, rest) ↔ ∃ l, t = l ++ rest ∧ length.IsWritten l := by
  constructor
  · intro h
    unfold length? digits? at h
    split at h
    · next digits rest' hdigits =>
      cases h
      split at hdigits
      · cases hdigits
      · next hne =>
        cases hdigits
        exact ⟨t.takeWhile isDecimal, takeWhile_append_dropWhile.symm, hne, all_takeWhile .., rfl⟩
    · obtain ⟨rest', hmax, heq⟩ := Option.map_eq_some_iff.mp h
      obtain ⟨rfl, rfl⟩ := Prod.mk.inj heq
      obtain ⟨l, hl, rfl⟩ := keyword?_eq_some_iff.mp hmax
      exact ⟨l, rfl, hl⟩
  · rintro ⟨l, rfl, hl⟩
    cases length with
    | max =>
      obtain ⟨c, l', rfl, hc⟩ := isDecimal_of_spells_max hl
      have hnone : digits? (c :: l' ++ rest) = none := by
        rw [digits?, cons_append, takeWhile_cons_of_neg (by simp [hc])]
      rw [length?, hnone, keyword?_append hl]
      rfl
    | characters n =>
      obtain ⟨hne, hall, rfl⟩ := hl
      obtain ⟨htake, hdrop⟩ := run_append hall hrest
      obtain ⟨c, l', rfl⟩ := exists_cons_of_ne_nil hne
      have hsome : digits? (c :: l' ++ rest) = some (c :: l', rest) := by
        rw [digits?, htake, hdrop]
      rw [length?, hsome]

/-- **A written `varchar`**: the word, and the length between parentheses. -/
def IsVarchar (length : Length) (m : Text) : Prop :=
  ∃ word ∈ varcharWords, ∃ w b₁ b₂ l b₃, m = w ++ (b₁ ++ '(' :: (b₂ ++ (l ++ (b₃ ++ [')'])))) ∧
    Spells word w ∧ Text.isBlank b₁ = true ∧ Text.isBlank b₂ = true ∧ Text.isBlank b₃ = true ∧
    length.IsWritten l

theorem anyKeyword?_of_spells {word w : Text} (hword : word ∈ varcharWords) (hw : Spells word w)
    (u : Text) : anyKeyword? varcharWords (w ++ u) = some u := by
  have hread := keyword?_append hw u
  unfold anyKeyword? varcharWords
  rw [findSome?_cons]
  simp only [varcharWords, mem_cons, not_mem_nil, or_false] at hword
  rcases hword with rfl | rfl
  · rw [hread]
  · rw [keyword?_of_differ (l := "nvarchar".toList) (by decide) hread, findSome?_singleton, hread]

theorem head_of_blanks {b : Text} (hb : Text.isBlank b = true) (u : Text) :
    (b ++ ')' :: u).head?.all (fun c => !isDecimal c) = true := by
  cases b with
  | nil => rfl
  | cons c b =>
    rw [isBlank_cons, Bool.and_eq_true] at hb
    simp [isDecimal_blank hb.1]

/-- **A `varchar` is read off the front of a text just when the text starts with one.** -/
theorem varchar?_eq_some_iff {length : Length} :
    varchar? t = some (length, rest) ↔ ∃ m, t = m ++ rest ∧ IsVarchar length m := by
  constructor
  · intro h
    obtain ⟨left, hword, h⟩ := Option.bind_eq_some_iff.mp h
    obtain ⟨inner, hopen, h⟩ := Option.bind_eq_some_iff.mp h
    obtain ⟨⟨length', after⟩, hlength, h⟩ := Option.bind_eq_some_iff.mp h
    obtain ⟨rest', hclose, h⟩ := Option.bind_eq_some_iff.mp h
    cases h
    obtain ⟨word, hmem, hkeyword⟩ := exists_of_findSome?_eq_some hword
    obtain ⟨w, hw, rfl⟩ := keyword?_eq_some_iff.mp hkeyword
    obtain ⟨b₁, hb₁, rfl⟩ := (char?_trimStart_eq_some_iff (by decide)).mp hopen
    obtain ⟨b₃, hb₃, rfl⟩ := (char?_trimStart_eq_some_iff (by decide)).mp hclose
    obtain ⟨l, hl, hwritten⟩ := (length?_eq_some_iff (head_of_blanks hb₃ rest)).mp hlength
    refine ⟨w ++ (b₁ ++ '(' :: (inner.indent ++ (l ++ (b₃ ++ [')'])))), ?_, word, hmem, w, b₁, inner.indent, l,
      b₃, rfl, hw, hb₁, all_takeWhile .., hb₃, hwritten⟩
    have hinner : inner = inner.indent ++ (l ++ (b₃ ++ ')' :: rest)) := by
      rw [← hl, indent_append_trimStart]
    conv_lhs => rw [hinner]
    simp
  · rintro ⟨m, rfl, word, hmem, w, b₁, b₂, l, b₃, rfl, hw, hb₁, hb₂, hb₃, hwritten⟩
    have hsplit : w ++ (b₁ ++ '(' :: (b₂ ++ (l ++ (b₃ ++ [')'])))) ++ rest =
        w ++ (b₁ ++ '(' :: (b₂ ++ (l ++ (b₃ ++ ')' :: rest)))) := by simp
    obtain ⟨c, l', rfl, hc⟩ : ∃ c l', l = c :: l' ∧ isBlank c = false := by
      cases length with
      | max =>
        cases l with
        | nil => cases hwritten
        | cons c l =>
          have hm : letterKey c = 'm' := (List.cons.inj hwritten).1
          rcases eq_of_letterKey (k := 'm') rfl hm with rfl | rfl
          · exact ⟨_, l, rfl, rfl⟩
          · exact ⟨_, l, rfl, rfl⟩
      | characters n =>
        obtain ⟨hne, hall, -⟩ := hwritten
        obtain ⟨c, l, rfl⟩ := exists_cons_of_ne_nil hne
        rw [all_cons, Bool.and_eq_true] at hall
        refine ⟨c, l, rfl, ?_⟩
        rw [← Bool.not_eq_true]
        intro hblank
        rw [isDecimal_blank hblank] at hall
        cases hall.1
    have hword := anyKeyword?_of_spells hmem hw (b₁ ++ '(' :: (b₂ ++ (c :: l' ++ (b₃ ++ ')' :: rest))))
    have hopen : char? '(' (trimStart (b₁ ++ '(' :: (b₂ ++ (c :: l' ++ (b₃ ++ ')' :: rest))))) =
        some (b₂ ++ (c :: l' ++ (b₃ ++ ')' :: rest))) :=
      (char?_trimStart_eq_some_iff (by decide)).mpr ⟨b₁, hb₁, rfl⟩
    have hlength := (length?_eq_some_iff (head_of_blanks hb₃ rest)).mpr ⟨c :: l', rfl, hwritten⟩
    have hclose : char? ')' (trimStart (b₃ ++ ')' :: rest)) = some rest :=
      (char?_trimStart_eq_some_iff (by decide)).mpr ⟨b₃, hb₃, rfl⟩
    have htrim : trimStart (b₂ ++ (c :: l' ++ (b₃ ++ ')' :: rest))) =
        c :: l' ++ (b₃ ++ ')' :: rest) := by
      rw [trimStart_append hb₂, cons_append, trimStart_of_head hc]
    unfold varchar?
    rw [hsplit, ← varcharWords, hword]
    simp only [Option.bind_eq_bind, Option.bind_some]
    rw [hopen, Option.bind_some, htrim, hlength, Option.bind_some]
    dsimp only
    rw [hclose]
    rfl

/-! ### Narrow integers -/

/-- The rule for narrow integers. -/
def narrowRule : Rule := ⟨true, ["tinyint".toList, "smallint".toList], .wordEnd, "int".toList⟩

theorem narrowRule_mem : narrowRule ∈ rules := by simp [narrowRule, rules, wordRules]

theorem narrowIntegers_eq (t : Text) : narrowIntegers t = applyRule t narrowRule := by
  have hscan : ∀ t, narrowInteger? t = ["tinyint".toList, "smallint".toList].findSome?
      fun word => (keyword? word t).bind Ending.wordEnd.read? := fun _ => rfl
  unfold narrowIntegers
  rw [wordFinder_eq hscan]
  rfl

end SqlRoutine.DataType

namespace SqlRoutine.Expression

open Code DataType Text
open List

variable {t rest : Text}

/-! ### Calls and their arguments -/

theorem callOf?_spec {function : Text} (h : callOf? function t = some rest) :
    ∃ m, t = m ++ '(' :: rest := by
  obtain ⟨left, hkeyword, hopen⟩ := Option.bind_eq_some_iff.mp h
  obtain ⟨w, -, rfl⟩ := keyword?_eq_some_iff.mp hkeyword
  obtain ⟨b, -, rfl⟩ := (char?_trimStart_eq_some_iff (by decide)).mp hopen
  exact ⟨w ++ b, by simp⟩

theorem go_spec : ∀ (t read : Text) {literal rest : Text},
    quotedLiteral?.go read t = some (literal, rest) → read.reverse ++ t = literal ++ rest
  | [], _, _, _, h => by cases h
  | [c], read, _, _, h => by
    rw [quotedLiteral?.go] at h
    split_ifs at h
    cases h
    simp
  | c :: d :: t, read, _, _, h => by
    rw [quotedLiteral?.go] at h
    split_ifs at h
    · simpa using go_spec t _ h
    · cases h
      simp
    · simpa using go_spec (d :: t) _ h

theorem quotedLiteral?_spec {literal : Text} (h : quotedLiteral? t = some (literal, rest)) :
    t = literal ++ rest := by
  unfold quotedLiteral? at h
  split at h
  · cases h
  · next inner hinner =>
    rw [char?_eq_some_iff.mp hinner]
    exact go_spec inner _ h

theorem argument?_subset {piece argument : Text} (h : argument? piece = some argument) :
    argument ⊆ piece := by
  unfold argument? at h
  split at h
  · obtain ⟨c, hc, rfl⟩ := Option.map_eq_some_iff.mp h
    intro x hx
    rw [mem_singleton.mp hx]
    exact mem_of_getLast? hc
  · cases h
    exact trim_subset piece

/-- A literal and the sign after it. -/
def literalBefore? (c : Char) (t : Text) : Option (Text × Text) :=
  (quotedLiteral? t.trimStart).bind fun (argument, rest) => (sign? c rest).map (argument, ·)

/-- A piece up to the first stop, which has to be the sign. -/
def pieceBefore? (isStop : Char → Bool) (c : Char) (t : Text) : Option (Text × Text) :=
  (char? c (t.dropWhile (!isStop ·))).bind fun rest =>
    (argument? (t.takeWhile (!isStop ·))).map (·, rest)

/-- What ends a first argument. -/
def endsFirst (c : Char) : Bool := c == ',' || c == ')'

theorem firstArguments_eq (t : Text) : firstArguments t =
    (literalBefore? ',' t).toList ++ (pieceBefore? endsFirst ',' t).toList := rfl

theorem lastArguments_eq (t : Text) : lastArguments t =
    (literalBefore? ')' t).toList ++ (pieceBefore? (· == ')') ')' t).toList := rfl

/-- **An argument is made of what stands before the sign.** -/
theorem argument_spec {isStop : Char → Bool} {c : Char} (hc : isBlank c = false) {argument : Text}
    (h : (argument, rest) ∈ (literalBefore? c t).toList ++ (pieceBefore? isStop c t).toList) :
    ∃ m, t = m ++ c :: rest ∧ argument ⊆ m := by
  rcases mem_append.mp h with h | h
  · obtain ⟨⟨literal, after⟩, hliteral, h⟩ := Option.bind_eq_some_iff.mp (Option.mem_toList.mp h)
    obtain ⟨rest', hsign, heq⟩ := Option.map_eq_some_iff.mp h
    cases heq
    obtain ⟨b, -, rfl⟩ := (char?_trimStart_eq_some_iff hc).mp hsign
    refine ⟨t.indent ++ (argument ++ b), ?_, fun x hx => by simp [hx]⟩
    conv_lhs => rw [← indent_append_trimStart t, quotedLiteral?_spec hliteral]
    simp
  · obtain ⟨after, hsign, h⟩ := Option.bind_eq_some_iff.mp (Option.mem_toList.mp h)
    obtain ⟨argument', hargument, heq⟩ := Option.map_eq_some_iff.mp h
    cases heq
    refine ⟨_, ?_, argument?_subset hargument⟩
    rw [← char?_eq_some_iff.mp hsign, takeWhile_append_dropWhile]

/-- **`CharIndex` is read with its arguments.** -/
theorem charIndex?_spec {find search : Text} (h : charIndex? t = some ((find, search), rest)) :
    ∃ m, m ≠ [] ∧ t = m ++ rest ∧ find ⊆ m ∧ search ⊆ m := by
  obtain ⟨left, hcall, h⟩ := Option.bind_eq_some_iff.mp h
  obtain ⟨⟨find', after⟩, hfirst, h⟩ := exists_of_findSome?_eq_some h
  obtain ⟨⟨search', rest'⟩, hlast, heq⟩ := Option.map_eq_some_iff.mp h
  cases heq
  obtain ⟨w, rfl⟩ := callOf?_spec hcall
  obtain ⟨m, rfl, hfind⟩ := argument_spec (by decide) (firstArguments_eq left ▸ hfirst)
  obtain ⟨m', rfl, hsearch⟩ :=
    argument_spec (by decide) (lastArguments_eq after ▸ mem_of_head? hlast)
  refine ⟨w ++ '(' :: (m ++ ',' :: (m' ++ [')'])), by simp, by simp, fun x hx => ?_, fun x hx => ?_⟩
  · simp [hfind hx]
  · simp [hsearch hx]

theorem name?_spec {name : Text} (h : name? t = some (name, rest)) :
    t = name ++ rest ∧ ∀ c ∈ name, isWord c = true := by
  unfold name? at h
  split at h
  · cases h
  · cases h
    exact ⟨takeWhile_append_dropWhile.symm, fun c hc => mem_takeWhile_imp hc⟩

/-- **`Convert` is read with the type and the name.** -/
theorem convert?_spec {type name : Text} (h : convert? t = some ((type, name), rest)) :
    ∃ m, m ≠ [] ∧ t = m ++ rest ∧ type ⊆ m ∧ ∀ c ∈ name, isWord c = true := by
  obtain ⟨left, hcall, h⟩ := Option.bind_eq_some_iff.mp h
  obtain ⟨type', htype, h⟩ := Option.bind_eq_some_iff.mp h
  obtain ⟨after, hcomma, h⟩ := Option.bind_eq_some_iff.mp h
  obtain ⟨named, hat, h⟩ := Option.bind_eq_some_iff.mp h
  obtain ⟨⟨name', close⟩, hname, h⟩ := Option.bind_eq_some_iff.mp h
  obtain ⟨rest', hclose, heq⟩ := Option.bind_eq_some_iff.mp h
  cases heq
  obtain ⟨w, rfl⟩ := callOf?_spec hcall
  obtain ⟨b, -, rfl⟩ := (char?_trimStart_eq_some_iff (by decide)).mp hclose
  obtain ⟨rfl, hword⟩ := name?_spec hname
  obtain ⟨m, rfl⟩ : ∃ m, after = m ++ (name ++ (b ++ ')' :: rest)) := by
    rw [Option.orElse_eq_orElse, Option.orElse_eq_or, Option.or_eq_some_iff] at hat
    rcases hat with hat | ⟨-, hat⟩
    · obtain ⟨b', -, rfl⟩ := (char?_trimStart_eq_some_iff (by decide)).mp hat
      exact ⟨b' ++ ['@'], by simp⟩
    · obtain ⟨b', -, rfl⟩ := (char?_trimStart_eq_some_iff (by decide)).mp hat
      exact ⟨b' ++ ['_'], by simp⟩
  have hsplit : left = left.takeWhile (· != ',') ++ ',' :: (m ++ (name ++ (b ++ ')' :: rest))) := by
    rw [← char?_eq_some_iff.mp hcomma, takeWhile_append_dropWhile]
  refine ⟨w ++ '(' :: (left.takeWhile (· != ',') ++ ',' :: (m ++ (name ++ (b ++ [')'])))), by simp, ?_,
    fun x hx => ?_, hword⟩
  · conv_lhs => rw [hsplit]
    simp
  · simp only [mem_append, mem_cons]
    exact .inr (.inr (.inl (argument?_subset htype hx)))

/-! ### What the finders put in its place -/

/-- What is found is not empty, and what takes its place is not blank. -/
def Fills (find : Finder Text) : Prop :=
  ∀ prev t out rest, find prev t = some (out, rest) → ∃ m, m ≠ [] ∧ t = m ++ rest ∧ out.isBlank = false

/-- What is found is not empty, and what takes its place is not blank and has no `@` of its own. -/
def Keeps (find : Finder Text) : Prop :=
  ∀ prev t out rest, find prev t = some (out, rest) →
    ∃ m, m ≠ [] ∧ t = m ++ rest ∧ out.isBlank = false ∧ ('@' ∈ out → '@' ∈ m)

section

variable {find : Finder Text}

theorem Fills.proper (hfind : Fills find) : Proper find := fun prev t out rest hfound => by
  obtain ⟨m, hm, ht, -⟩ := hfind prev t out rest hfound
  exact ⟨m, hm, ht⟩

theorem Fills.isBlank_replaceAll (hfind : Fills find) (h : t.isBlank = false) :
    Text.isBlank (t.replaceAll find) = false := by
  refine isBlank_replaceFrom hfind.proper (fun prev t out rest hfound => ?_) none t h
  obtain ⟨m, -, -, hout⟩ := hfind prev t out rest hfound
  exact hout

namespace Keeps

variable (hfind : Keeps find)
include hfind

theorem fills : Fills find := fun prev t out rest hfound => by
  obtain ⟨m, hm, ht, hout, -⟩ := hfind prev t out rest hfound
  exact ⟨m, hm, ht, hout⟩

theorem proper : Proper find := hfind.fills.proper

theorem not_sigil_replaceAll (h : '@' ∉ t) : '@' ∉ t.replaceAll find := by
  refine fun hin => h (mem_of_mem_replaceAll hfind.proper (fun prev t out rest hfound hout => ?_) hin)
  obtain ⟨m, -, rfl, -, hsigil⟩ := hfind prev t out rest hfound
  exact mem_append_left rest (hsigil hout)

end Keeps

end

theorem keeps_atWord {s : Text → Option (Text × Text)} (h : ∀ t out rest, s t = some (out, rest) →
      ∃ m, m ≠ [] ∧ t = m ++ rest ∧ out.isBlank = false ∧ ('@' ∈ out → '@' ∈ m)) :
    Keeps (atWord s) := by
  intro prev t out rest hfind
  unfold atWord at hfind
  split_ifs at hfind
  exact h t out rest hfind

theorem plusAfterQuoted_spec {prev : Option Char} {out : Text}
    (h : plusAfterQuoted prev t = some (out, rest)) :
    ∃ m, t = quote :: (m ++ '+' :: rest) ∧ out = quote :: (m ++ ['|', '|']) := by
  obtain ⟨inner, hinner, h⟩ := Option.bind_eq_some_iff.mp h
  obtain ⟨after, hafter, h⟩ := Option.bind_eq_some_iff.mp h
  obtain ⟨rest', hplus, heq⟩ := Option.bind_eq_some_iff.mp h
  obtain ⟨rfl, rfl⟩ := Prod.mk.inj (Option.some.inj heq)
  obtain ⟨b, -, rfl⟩ := (char?_trimStart_eq_some_iff (by decide)).mp hplus
  have hsplit : t = quote :: (inner.takeWhile (· != quote) ++ quote :: b) ++ ['+'] ++ rest' := by
    rw [char?_eq_some_iff.mp hinner]
    conv_lhs => rw [← takeWhile_append_dropWhile (p := (· != quote)) (l := inner),
      char?_eq_some_iff.mp hafter]
    simp
  refine ⟨inner.takeWhile (· != quote) ++ quote :: b, by simpa using hsplit, ?_⟩
  rw [hsplit, readBefore_append, dropLast_concat]
  rfl

theorem keeps_plusAfterQuoted : Keeps plusAfterQuoted := by
  intro prev t out rest hfind
  obtain ⟨m, rfl, rfl⟩ := plusAfterQuoted_spec hfind
  refine ⟨quote :: (m ++ ['+']), cons_ne_nil _ _, by simp, rfl, fun hin => ?_⟩
  simpa using hin

theorem keeps_plusBeforeQuoted : Keeps plusBeforeQuoted := by
  intro prev t out rest hfind
  obtain ⟨rest', hplus, hfind⟩ := Option.bind_eq_some_iff.mp hfind
  obtain ⟨inner, -, hfind⟩ := Option.bind_eq_some_iff.mp hfind
  split_ifs at hfind
  obtain ⟨rfl, rfl⟩ := Prod.mk.inj (Option.some.inj hfind)
  exact ⟨['+'], cons_ne_nil _ _, char?_eq_some_iff.mp hplus, rfl,
    fun hin => absurd hin (by decide)⟩

theorem keeps_varcharFinder (minimum : ℤ) : Keeps (varcharFinder minimum) := by
  refine keeps_atWord (s := fun t => (varchar? t).map _) fun t out rest h => ?_
  obtain ⟨⟨length, rest'⟩, hread, heq⟩ := Option.map_eq_some_iff.mp h
  obtain ⟨rfl, rfl⟩ := Prod.mk.inj heq
  obtain ⟨m, rfl, hm⟩ := varchar?_eq_some_iff.mp hread
  have hopen : '(' ∈ m := by
    obtain ⟨word, -, w, b₁, b₂, l, b₃, rfl, -⟩ := hm
    simp
  refine ⟨m, ne_nil_of_mem hopen, rfl, ?_⟩
  split_ifs
  · exact ⟨rfl, fun hin => absurd hin (by decide)⟩
  · rw [readBefore_append]
    exact ⟨isBlank_eq_false_iff.mpr ⟨'(', hopen, rfl⟩, id⟩

theorem longVarchar_free (minimum : ℤ) (h : '@' ∉ t) : '@' ∉ longVarchar minimum t :=
  (keeps_varcharFinder minimum).not_sigil_replaceAll h

theorem narrowIntegers_free (h : '@' ∉ t) : '@' ∉ narrowIntegers t := by
  rw [narrowIntegers_eq]
  refine fun hin => h (mem_of_mem_replaceAll (rules_plain _ narrowRule_mem).proper ?_ hin)
  intro prev s r rest hfind hr
  rw [(Rule.finder_eq_some hfind).2] at hr
  exact absurd hr (by decide)

theorem typeConvert_free (minimum : ℤ) {types : Mapping} (htypes : types.Free) (h : '@' ∉ t) :
    '@' ∉ DataType.convert minimum t types := by
  have hplain : '@' ∉ narrowIntegers (longVarchar minimum t.trim) :=
    narrowIntegers_free (longVarchar_free minimum fun hin => h (trim_subset t hin))
  unfold DataType.convert
  dsimp only
  cases hspelling : types (narrowIntegers (longVarchar minimum t.trim)) with
  | none => exact hplain
  | some spelling => exact htypes _ spelling hspelling hplain

theorem keeps_lenFinder : Keeps lenFinder := by
  refine keeps_atWord (s := fun t => (callOf? "Len".toList t).map _) fun t out rest h => ?_
  obtain ⟨rest', hcall, heq⟩ := Option.map_eq_some_iff.mp h
  obtain ⟨rfl, rfl⟩ := Prod.mk.inj heq
  obtain ⟨m, rfl⟩ := callOf?_spec hcall
  exact ⟨m ++ ['('], by simp, by simp, by decide, fun hin => absurd hin (by decide)⟩

theorem keeps_charIndexFinder : Keeps charIndexFinder := by
  refine keeps_atWord fun t out rest h => ?_
  obtain ⟨⟨⟨find, search⟩, rest'⟩, hread, heq⟩ := Option.map_eq_some_iff.mp h
  obtain ⟨rfl, rfl⟩ := Prod.mk.inj heq
  obtain ⟨m, hm, ht, hfind, hsearch⟩ := charIndex?_spec hread
  refine ⟨m, hm, ht, rfl, fun hin => ?_⟩
  have hfixed : '@' ∉ "position(".toList ∧ '@' ∉ " in ".toList := by decide
  have hparts : '@' ∈ find ∨ '@' ∈ search := by simpa [hfixed] using hin
  exact hparts.elim (fun h => hfind h) fun h => hsearch h

theorem fills_convertFinder (p : Profile) : Fills (convertFinder p) := by
  intro prev t out rest hfind
  unfold convertFinder atWord at hfind
  split_ifs at hfind
  obtain ⟨⟨⟨type, name⟩, rest'⟩, hread, heq⟩ := Option.map_eq_some_iff.mp hfind
  obtain ⟨rfl, rfl⟩ := Prod.mk.inj heq
  obtain ⟨m, hm, ht, -, -⟩ := convert?_spec hread
  exact ⟨m, hm, ht, rfl⟩

theorem keeps_convertFinder {p : Profile} (hp : p.types.Free) : Keeps (convertFinder p) := by
  refine keeps_atWord fun t out rest h => ?_
  obtain ⟨⟨⟨type, name⟩, rest'⟩, hread, heq⟩ := Option.map_eq_some_iff.mp h
  obtain ⟨rfl, rfl⟩ := Prod.mk.inj heq
  obtain ⟨m, hm, ht, htype, hname⟩ := convert?_spec hread
  refine ⟨m, hm, ht, rfl, fun hin => ?_⟩
  by_contra hs
  have hword : '@' ∉ name := fun hin => absurd (hname '@' hin) (by decide)
  have hspelled := typeConvert_free p.textLength hp fun hin => hs (htype hin)
  simp [hword, hspelled] at hin

theorem keeps_or_eq_convertFinder (p : Profile) :
    ∀ find ∈ conversionFinders p, Keeps find ∨ find = convertFinder p := by
  intro find hfind
  rw [conversionFinders_eq] at hfind
  simp only [mem_cons, not_mem_nil, or_false] at hfind
  rcases hfind with rfl | rfl | rfl | rfl | rfl | rfl
  · exact .inl keeps_plusAfterQuoted
  · exact .inl keeps_plusBeforeQuoted
  · exact .inl keeps_lenFinder
  · exact .inl keeps_charIndexFinder
  · exact .inr rfl
  · exact .inl (keeps_varcharFinder p.textLength)

/-- **None of the finders takes something away** without putting something in its place. -/
theorem fills_conversionFinders (p : Profile) : ∀ find ∈ conversionFinders p, Fills find := by
  intro find hfind
  rcases keeps_or_eq_convertFinder p find hfind with hkeeps | rfl
  · exact hkeeps.fills
  · exact fills_convertFinder p

/-- **None of the finders brings an `@`**, if no type does when it is spelled anew. -/
theorem keeps_conversionFinders {p : Profile} (hp : p.types.Free) :
    ∀ find ∈ conversionFinders p, Keeps find := by
  intro find hfind
  rcases keeps_or_eq_convertFinder p find hfind with hkeeps | rfl
  · exact hkeeps
  · exact keeps_convertFinder hp

end SqlRoutine.Expression
