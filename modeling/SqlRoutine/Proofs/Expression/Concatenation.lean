import SqlRoutine.Expression.Basic
import SqlRoutine.Proofs.Code.Terminator
import SqlRoutine.Proofs.Text.Replace

/-! # Plus signs beside literals

A plus sign joins texts if a literal ends before it or begins after it, blanks aside: `joined` writes
`||` for such a sign and keeps everything else. The conversion looks for two quotes with a plus sign
after the second, and for a plus sign with two quotes after it, and cannot tell which quotes open a
literal. A text with balanced quotes is laid out as gaps and literals in turn (`QuotedText`), and both
searches act on these parts (`replaceAll_plusAfterQuoted`, `replaceAll_plusBeforeQuoted`). So **the
conversion does what `joined` says just when no literal is misread** (`concatenation_eq_joined_iff`): no
literal starts with a plus sign that the gap before it is taken to precede, and none but the last ends
with one. -/

namespace SqlRoutine.Expression

open List Option Text
open Code (quote)

variable {c : Char} {parts : QuotedParts} {gap literal t u : Text}

/-! ### The rule -/

/-- Outside quotes a literal begins here, after blanks. -/
def opensAhead (t : Text) : Bool := t.trimStart.head? == some quote

/-- The rule from a place on that stands in quotes or not, and after the end of a literal and blanks or
not. -/
def joinedFrom (quoted closed : Bool) : Text → Text
  | [] => []
  | c :: cs =>
    if c = quote then c :: joinedFrom (!quoted) quoted cs
    else if quoted then c :: joinedFrom true false cs
    else if c = '+' && (closed || opensAhead cs) then '|' :: '|' :: joinedFrom false false cs
    else c :: joinedFrom false (closed && isBlank c) cs

/-- **A plus sign outside literals becomes `||`** when a literal ends before it or begins after it,
blanks aside. All else is kept. -/
def joined (t : Text) : Text := joinedFrom false false t

/-! ### Gaps and literals -/

/-- The text after its first literal: each literal, without its quotes, and the gap after it. -/
abbrev QuotedParts := List (Text × Text)

/-- The literals and gaps as a text. -/
def partsText : QuotedParts → Text
  | [] => []
  | (literal, gap) :: parts => quote :: (literal ++ quote :: (gap ++ partsText parts))

/-- **A text with balanced quotes**: a gap, then literals with a gap after each. A doubled quote inside
a literal is read as the end of one and the start of the next, with nothing between. -/
structure QuotedText where
  start : Text
  parts : QuotedParts
  start_noQuote : quote ∉ start
  parts_noQuote : ∀ part ∈ parts, quote ∉ part.1 ∧ quote ∉ part.2

/-- The text that is laid out. -/
def QuotedText.text (q : QuotedText) : Text := q.start ++ partsText q.parts

/-- A plus sign comes first, after blanks. -/
def startsWithPlus (t : Text) : Bool := t.trimStart.head? == some '+'

/-- A plus sign comes last, before blanks. -/
def endsWithPlus (t : Text) : Bool := t.trimEnd.getLast? == some '+'

/-- No literal is misread; `free` tells whether the quote that ends the literal before can be taken for
the start of one. -/
def clearFrom (free : Bool) : QuotedParts → Bool
  | [] => true
  | (literal, gap) :: parts =>
    !(free && startsWithPlus literal) && (parts.isEmpty || !endsWithPlus literal) &&
      clearFrom (!startsWithPlus gap) parts

/-- **No literal is misread**: a literal that starts with a plus sign is the first, or the gap before it
starts with a plus sign too; and no literal but the last ends with a plus sign. -/
def QuotedText.isClear (q : QuotedText) : Bool := clearFrom false q.parts

theorem not_mem_cons {d : Char} (hc : d ≠ c) (ht : c ∉ t) : c ∉ d :: t :=
  fun h => (mem_cons.mp h).elim (fun heq => hc heq.symm) ht

/-- A text with balanced quotes is laid out, and so is the rest of one from inside a literal on. -/
theorem exists_layout (t : Text) :
    (Code.endsQuoted false t = false → ∃ q : QuotedText, q.text = t) ∧
      (Code.endsQuoted true t = false → ∃ (literal : Text) (q : QuotedText), quote ∉ literal ∧
        t = literal ++ quote :: q.text) := by
  induction t with
  | nil => exact ⟨fun _ => ⟨⟨[], [], not_mem_nil, nofun⟩, rfl⟩, nofun⟩
  | cons c cs ih =>
    rw [Code.endsQuoted, Code.endsQuoted]
    by_cases hc : c = quote
    · rw [if_pos hc, if_pos hc, hc]
      refine ⟨fun h => ?_, fun h => ?_⟩
      · obtain ⟨literal, q, hliteral, rfl⟩ := ih.2 h
        refine ⟨⟨[], (literal, q.start) :: q.parts, not_mem_nil, ?_⟩, rfl⟩
        rintro part (_ | ⟨_, hpart⟩)
        · exact ⟨hliteral, q.start_noQuote⟩
        · exact q.parts_noQuote part hpart
      · obtain ⟨q, rfl⟩ := ih.1 h
        exact ⟨[], q, not_mem_nil, rfl⟩
    · rw [if_neg hc, if_neg hc]
      refine ⟨fun h => ?_, fun h => ?_⟩
      · obtain ⟨q, rfl⟩ := ih.1 h
        exact ⟨⟨c :: q.start, q.parts, not_mem_cons hc q.start_noQuote,
          q.parts_noQuote⟩, rfl⟩
      · obtain ⟨literal, q, hliteral, rfl⟩ := ih.2 h
        exact ⟨c :: literal, q, not_mem_cons hc hliteral, rfl⟩

/-- The text is at its end, or a quote comes next. -/
def AtQuote (t : Text) : Prop := ∀ c, t.head? = some c → c = quote

theorem atQuote_quote (t : Text) : AtQuote (quote :: t) := fun _ h => (Option.some.inj h).symm

theorem atQuote_partsText (parts : QuotedParts) : AtQuote (partsText parts) := by
  cases parts with
  | nil => exact nofun
  | cons part parts => exact atQuote_quote _

/-- A part ends at the next quote. -/
theorem append_inj_of_noQuote {x x' u' : Text} (hx : quote ∉ x) (hx' : quote ∉ x') (hu : AtQuote u)
    (hu' : AtQuote u') (h : x ++ u = x' ++ u') : x = x' ∧ u = u' := by
  have hrun : ∀ {x u : Text}, quote ∉ x → AtQuote u →
      (x ++ u).takeWhile (· != quote) = x ∧ (x ++ u).dropWhile (· != quote) = u := by
    intro x u hx hu
    refine run_append (List.all_eq_true.mpr fun c hc => ?_) ?_
    · rw [bne_iff_ne]
      rintro rfl
      exact hx hc
    · cases hhead : u.head? with
      | none => rfl
      | some c => simp [hu c hhead]
  obtain ⟨htake, hdrop⟩ := hrun hx hu
  obtain ⟨htake', hdrop'⟩ := hrun hx' hu'
  rw [h] at htake hdrop
  exact ⟨htake.symm.trans htake', hdrop.symm.trans hdrop'⟩

/-- No part has a quote in it. -/
def NoQuotes (parts : QuotedParts) : Prop := ∀ part ∈ parts, quote ∉ part.1 ∧ quote ∉ part.2

/-- **The parts of a text are determined** by the text. -/
theorem partsText_inj : ∀ {parts parts' : QuotedParts}, NoQuotes parts → NoQuotes parts' →
    partsText parts = partsText parts' → parts = parts'
  | [], [], _, _, _ => rfl
  | [], _ :: _, _, _, h => by cases h
  | _ :: _, [], _, _, h => by cases h
  | (literal, gap) :: parts, (literal', gap') :: parts', hparts, hparts', h => by
    obtain ⟨hliteral, hgap⟩ := hparts _ mem_cons_self
    obtain ⟨hliteral', hgap'⟩ := hparts' _ mem_cons_self
    obtain ⟨rfl, hafter⟩ := append_inj_of_noQuote hliteral hliteral' (atQuote_quote _)
      (atQuote_quote _) (List.cons.inj h).2
    obtain ⟨rfl, hrest⟩ := append_inj_of_noQuote hgap hgap' (atQuote_partsText _)
      (atQuote_partsText _) (List.cons.inj hafter).2
    rw [partsText_inj (fun part hpart => hparts part (mem_cons_of_mem _ hpart))
      (fun part hpart => hparts' part (mem_cons_of_mem _ hpart)) hrest]

/-! ### Plus signs at the ends of a part -/

/-- The text with a plus sign that comes first as `||`. -/
def joinStart : Text → Text
  | [] => []
  | c :: cs =>
    if isBlank c then c :: joinStart cs else if c = '+' then '|' :: '|' :: cs else c :: cs

/-- The text with a plus sign that comes last as `||`. -/
def joinEnd : Text → Text
  | [] => []
  | c :: cs => if c = '+' && Text.isBlank cs then '|' :: '|' :: cs else c :: joinEnd cs

theorem startsWithPlus_cons (c : Char) (cs : Text) :
    startsWithPlus (c :: cs) = if isBlank c then startsWithPlus cs else c == '+' := by
  unfold startsWithPlus trimStart
  by_cases hc : isBlank c
  · rw [dropWhile_cons_of_pos hc, if_pos hc]
  · rw [dropWhile_cons_of_neg hc, if_neg hc]
    rfl

theorem endsWithPlus_cons (c : Char) (cs : Text) :
    endsWithPlus (c :: cs) = if c = '+' && Text.isBlank cs then true else endsWithPlus cs := by
  unfold endsWithPlus
  cases hblank : Text.isBlank cs with
  | true =>
    have hnil : ∀ {t : Text}, t.isBlank → t.trimEnd = [] := fun h =>
      rdropWhile_eq_nil_iff.mpr (isBlank_eq_true_iff.mp h)
    rw [Bool.and_true, hnil hblank]
    by_cases hc : isBlank c
    · have hne : c ≠ '+' := by
        rintro rfl
        cases hc
      rw [hnil (by rw [isBlank_cons, hc, hblank]; rfl), if_neg (by simpa using hne)]
    · rw [trimEnd_cons (Bool.not_eq_true _ ▸ hc), hnil hblank]
      by_cases hplus : c = '+' <;> simp [hplus]
  | false =>
    obtain ⟨d, hd, hvisible⟩ := isBlank_eq_false_iff.mp hblank
    obtain ⟨x, y, rfl⟩ := append_of_mem hd
    rw [Bool.and_false, if_neg Bool.false_ne_true, ← cons_append,
      Code.trimEnd_append_cons _ hvisible, Code.trimEnd_append_cons _ hvisible, getLast?_append,
      getLast?_append]
    cases h : (d :: trimEnd y).getLast? with
    | none => simp at h
    | some e => rfl

theorem length_joinStart (t : Text) :
    (joinStart t).length = if startsWithPlus t then t.length + 1 else t.length := by
  induction t with
  | nil => rfl
  | cons c cs ih =>
    rw [joinStart, startsWithPlus_cons]
    split_ifs <;> simp_all

theorem joinStart_eq_self (h : startsWithPlus t = false) : joinStart t = t := by
  induction t with
  | nil => rfl
  | cons c cs ih =>
    rw [startsWithPlus_cons] at h
    rw [joinStart]
    split_ifs at h ⊢ with hblank hplus
    · rw [ih h]
    · rw [hplus] at h
      cases h
    · rfl

theorem length_joinEnd (t : Text) :
    (joinEnd t).length = if endsWithPlus t then t.length + 1 else t.length := by
  induction t with
  | nil => rfl
  | cons c cs ih =>
    rw [joinEnd, endsWithPlus_cons]
    split_ifs <;> simp_all

theorem joinEnd_eq_self (h : endsWithPlus t = false) : joinEnd t = t := by
  induction t with
  | nil => rfl
  | cons c cs ih =>
    rw [endsWithPlus_cons] at h
    rw [joinEnd]
    split_ifs at h ⊢ with hplus
    rw [ih h]

theorem joinEnd_of_isBlank (h : t.isBlank) : joinEnd t = t := by
  refine joinEnd_eq_self ?_
  rw [endsWithPlus, show t.trimEnd = [] from
    rdropWhile_eq_nil_iff.mpr (isBlank_eq_true_iff.mp h)]
  rfl

theorem noQuote_joinStart (h : quote ∉ t) : quote ∉ joinStart t := by
  induction t with
  | nil => exact h
  | cons c cs ih =>
    obtain ⟨hc, hcs⟩ := not_or.mp (mt mem_cons.mpr h)
    rw [joinStart]
    split_ifs
    · exact not_mem_cons (Ne.symm hc) (ih hcs)
    · exact not_mem_cons (by decide) (not_mem_cons (by decide) hcs)
    · exact h

theorem noQuote_joinEnd (h : quote ∉ t) : quote ∉ joinEnd t := by
  induction t with
  | nil => exact h
  | cons c cs ih =>
    obtain ⟨hc, hcs⟩ := not_or.mp (mt mem_cons.mpr h)
    rw [joinEnd]
    split_ifs
    · exact not_mem_cons (by decide) (not_mem_cons (by decide) hcs)
    · exact not_mem_cons (Ne.symm hc) (ih hcs)

/-- A part, with a plus sign that comes last joined if a literal comes next. -/
def joinNext (more : Bool) (t : Text) : Text := if more then joinEnd t else t

theorem opensAhead_append (ht : quote ∉ t) (hu : AtQuote u) :
    opensAhead (t ++ u) = (Text.isBlank t && !u.isEmpty) := by
  induction t with
  | nil =>
    cases u with
    | nil => rfl
    | cons c u =>
      rw [hu c rfl]
      rfl
  | cons c cs ih =>
    obtain ⟨hc, hcs⟩ := not_or.mp (mt mem_cons.mpr ht)
    unfold opensAhead trimStart at ih ⊢
    rw [cons_append, isBlank_cons]
    by_cases hblank : isBlank c
    · rw [dropWhile_cons_of_pos hblank, ih hcs, hblank, Bool.true_and]
    · rw [dropWhile_cons_of_neg hblank, Bool.eq_false_iff.mpr hblank]
      simpa using Ne.symm hc

/-! ### The rule on the parts -/

/-- Outside quotes, a part and what comes after it. -/
theorem joinedFrom_gap (hu : AtQuote u) (hgap : quote ∉ gap) (closed : Bool) :
    joinedFrom false closed (gap ++ u) =
      joinNext (!u.isEmpty) (if closed then joinStart gap else gap) ++ joinedFrom false false u := by
  induction gap generalizing closed with
  | nil =>
    have hnil : joinNext (!u.isEmpty) (if closed then joinStart [] else []) = [] := by
      cases closed <;> cases u <;> rfl
    rw [hnil, nil_append, nil_append]
    cases u with
    | nil => rfl
    | cons c u => rw [hu c rfl, joinedFrom, if_pos rfl, joinedFrom, if_pos rfl]
  | cons c cs ih =>
    obtain ⟨hc, hcs⟩ := not_or.mp (mt mem_cons.mpr hgap)
    rw [cons_append, joinedFrom, if_neg (Ne.symm hc), if_neg Bool.false_ne_true,
      opensAhead_append hcs hu, ih hcs, ih hcs]
    generalize (!u.isEmpty) = more
    by_cases hplus : c = '+'
    · subst hplus
      have hvisible : isBlank '+' = false := rfl
      by_cases hblank : Text.isBlank cs
      · cases more <;> cases closed <;>
          simp [joinNext, joinStart, joinEnd, hvisible, hblank, joinEnd_of_isBlank]
      · cases more <;> cases closed <;> simp [joinNext, joinStart, joinEnd, hvisible, hblank]
    · by_cases hblank : isBlank c
      · cases more <;> cases closed <;> simp [joinNext, joinStart, joinEnd, hplus, hblank]
      · cases more <;> cases closed <;> simp [joinNext, joinStart, joinEnd, hplus, hblank]

/-- In quotes everything is kept. -/
theorem joinedFrom_literal (hliteral : quote ∉ literal) (u : Text) (closed : Bool) :
    joinedFrom true closed (literal ++ quote :: u) = literal ++ quote :: joinedFrom false true u := by
  induction literal generalizing closed with
  | nil => rw [nil_append, joinedFrom, if_pos rfl]; rfl
  | cons c cs ih =>
    obtain ⟨hc, hcs⟩ := not_or.mp (mt mem_cons.mpr hliteral)
    rw [cons_append, joinedFrom, if_neg (Ne.symm hc), if_pos rfl, ih hcs]
    rfl

/-- What the rule makes of literals and the gaps after them. -/
def joinedParts : QuotedParts → QuotedParts
  | [] => []
  | (literal, gap) :: parts =>
    (literal, joinNext (!parts.isEmpty) (joinStart gap)) :: joinedParts parts

theorem isEmpty_partsText (parts : QuotedParts) : (partsText parts).isEmpty = parts.isEmpty := by
  cases parts <;> rfl

theorem joinedFrom_partsText (h : NoQuotes parts) :
    joinedFrom false false (partsText parts) = partsText (joinedParts parts) := by
  induction parts with
  | nil => rfl
  | cons part parts ih =>
    obtain ⟨literal, gap⟩ := part
    obtain ⟨hliteral, hgap⟩ := h _ mem_cons_self
    have hparts : NoQuotes parts := fun part hpart => h part (mem_cons_of_mem _ hpart)
    rw [partsText, joinedFrom, if_pos rfl, Bool.not_false, joinedFrom_literal hliteral,
      joinedFrom_gap (atQuote_partsText parts) hgap, ih hparts, isEmpty_partsText]
    rfl

/-! ### Searches that do not look back -/

section

variable {find : Finder Text} (hblind : ∀ prev t, find prev t = find none t)
include hblind

theorem replaceFrom_of_blind (prev : Option Char) (t : Text) :
    replaceFrom find prev t = t.replaceAll find := by
  cases t with
  | nil => rfl
  | cons c cs =>
    unfold replaceAll segments replaceFrom
    rw [segmentsFrom, segmentsFrom, hblind]

theorem replaceAll_cons {cs : Text} (h : find none (c :: cs) = none) :
    replaceAll find (c :: cs) = c :: replaceAll find cs := by
  rw [replaceAll_eq, replaceFrom_of_none h, replaceFrom_of_blind hblind]

theorem replaceAll_found {m r rest : Text} (hm : m ≠ []) (h : find none (m ++ rest) = some (r, rest)) :
    replaceAll find (m ++ rest) = r ++ replaceAll find rest := by
  rw [replaceAll_eq, replaceFrom_of_found hm h, replaceFrom_of_blind hblind]

end

/-! ### Plus signs after two quotes -/

/-- What the first search makes of literals and the gaps after them; `free` tells whether the quote
before can be taken for the start of a literal. -/
def startsFrom (free : Bool) : QuotedParts → QuotedParts
  | [] => []
  | (literal, gap) :: parts =>
    if free && startsWithPlus literal then (joinStart literal, gap) :: startsFrom true parts
    else if startsWithPlus gap then (literal, joinStart gap) :: startsFrom false parts
    else (literal, gap) :: startsFrom true parts

theorem exists_of_startsWithPlus (h : startsWithPlus t) :
    ∃ b r : Text, b.isBlank ∧ t = b ++ '+' :: r ∧ joinStart t = b ++ '|' :: '|' :: r := by
  induction t with
  | nil => cases h
  | cons c cs ih =>
    rw [startsWithPlus_cons] at h
    split_ifs at h with hc
    · obtain ⟨b, r, hb, rfl, hjoin⟩ := ih h
      exact ⟨c :: b, r, by rw [isBlank_cons, hc, hb]; rfl, rfl, by rw [joinStart, if_pos hc, hjoin]; rfl⟩
    · obtain rfl := eq_of_beq h
      exact ⟨[], cs, rfl, rfl, rfl⟩

theorem char?_plus_append (h : startsWithPlus t = false) (hu : AtQuote u) :
    char? '+' (t ++ u).trimStart = none := by
  induction t with
  | nil =>
    cases u with
    | nil => rfl
    | cons c u =>
      rw [hu c rfl]
      rfl
  | cons c cs ih =>
    rw [startsWithPlus_cons] at h
    rw [cons_append]
    split_ifs at h with hc
    · rw [trimStart, dropWhile_cons_of_pos hc]
      exact ih h
    · rw [trimStart_of_head (Bool.eq_false_iff.mpr hc), char?, if_neg]
      simpa using h

theorem dropWhile_quote (ht : quote ∉ t) (u : Text) :
    (t ++ quote :: u).dropWhile (· != quote) = quote :: u := by
  refine (run_append (List.all_eq_true.mpr fun c hc => ?_) (by simp)).2
  rw [bne_iff_ne]
  rintro rfl
  exact ht hc

section

variable {part next u : Text} (hpart : quote ∉ part)
include hpart

theorem replaceAll_plusAfterQuoted_part :
    replaceAll plusAfterQuoted (part ++ u) = part ++ replaceAll plusAfterQuoted u := by
  induction part with
  | nil => rfl
  | cons c cs ih =>
    obtain ⟨hc, hcs⟩ := not_or.mp (mt mem_cons.mpr hpart)
    have hnone : plusAfterQuoted none (c :: (cs ++ u)) = none := by
      rw [plusAfterQuoted, char?, if_neg (Ne.symm hc)]
      rfl
    rw [cons_append, replaceAll_cons (fun _ _ => rfl) hnone, ih hcs]
    rfl

/-- Two quotes without a plus sign after them: the second is tried next. -/
theorem replaceAll_plusAfterQuoted_of_not (hnext : startsWithPlus next = false) (hu : AtQuote u) :
    replaceAll plusAfterQuoted (quote :: (part ++ quote :: (next ++ u))) =
      quote :: (part ++ replaceAll plusAfterQuoted (quote :: (next ++ u))) := by
  have hnone : plusAfterQuoted none (quote :: (part ++ quote :: (next ++ u))) = none := by
    simp only [plusAfterQuoted, char?_cons_self, bind_eq_bind, bind_some,
      dropWhile_quote hpart, char?_plus_append hnext hu, bind_none]
  rw [replaceAll_cons (fun _ _ => rfl) hnone, replaceAll_plusAfterQuoted_part hpart]

/-- Two quotes with a plus sign after them: the search goes on behind it. -/
theorem replaceAll_plusAfterQuoted_of_plus (hnext : startsWithPlus next)
    (hquote : quote ∉ next) :
    replaceAll plusAfterQuoted (quote :: (part ++ quote :: (next ++ u))) =
      quote :: (part ++ quote :: (joinStart next ++ replaceAll plusAfterQuoted u)) := by
  obtain ⟨b, r, hb, rfl, hjoin⟩ := exists_of_startsWithPlus hnext
  have hr : quote ∉ r := fun h => hquote (by simp [h])
  have hsplit : quote :: (part ++ quote :: (b ++ '+' :: r ++ u)) =
      (quote :: (part ++ quote :: b) ++ ['+']) ++ (r ++ u) := by simp
  have hfound : plusAfterQuoted none ((quote :: (part ++ quote :: b) ++ ['+']) ++ (r ++ u)) =
      some (quote :: (part ++ quote :: b) ++ ['|', '|'], r ++ u) := by
    have htrim : trimStart (b ++ '+' :: (r ++ u)) = '+' :: (r ++ u) := trimStart_append hb _
    have hread : readBefore (r ++ u) ((quote :: (part ++ quote :: b) ++ ['+']) ++ (r ++ u)) =
        quote :: (part ++ quote :: b) ++ ['+'] := readBefore_append _ _
    have hopen : char? quote ((quote :: (part ++ quote :: b) ++ ['+']) ++ (r ++ u)) =
        some (part ++ quote :: (b ++ '+' :: (r ++ u))) := by
      rw [char?_eq_some_iff]
      simp
    simp only [plusAfterQuoted, hopen, hread, dropLast_concat, bind_eq_bind,
      bind_some, dropWhile_quote hpart, char?_cons_self, htrim]
    rfl
  rw [hsplit, replaceAll_found (fun _ _ => rfl) (by simp) hfound, replaceAll_plusAfterQuoted_part hr,
    hjoin]
  simp

end

/-- **The first search acts on the parts**, from the start of a literal on and from its end on. -/
theorem replaceAll_plusAfterQuoted (h : NoQuotes parts) :
    replaceAll plusAfterQuoted (partsText parts) = partsText (startsFrom false parts) ∧
      ∀ {gap : Text}, quote ∉ gap →
        replaceAll plusAfterQuoted (quote :: (gap ++ partsText parts)) =
          quote :: (gap ++ partsText (startsFrom true parts)) := by
  induction parts with
  | nil =>
    refine ⟨rfl, fun {gap} hgap => ?_⟩
    have hdrop : gap.dropWhile (· != quote) = [] := by
      refine dropWhile_eq_nil_iff.mpr fun c hc => ?_
      rw [bne_iff_ne]
      rintro rfl
      exact hgap hc
    have hnone : plusAfterQuoted none (quote :: gap) = none := by
      simp [plusAfterQuoted, char?, hdrop]
    have hkept := replaceAll_plusAfterQuoted_part hgap (u := [])
    rw [partsText, startsFrom, partsText, append_nil, replaceAll_cons (fun _ _ => rfl) hnone]
    rw [append_nil] at hkept
    rw [hkept]
    exact congrArg (quote :: ·) (append_nil gap)
  | cons part parts ih =>
    obtain ⟨literal, gap⟩ := part
    obtain ⟨hliteral, hgap⟩ := h _ mem_cons_self
    obtain ⟨hopening, hclosing⟩ := ih fun part hpart => h part (mem_cons_of_mem _ hpart)
    have hfirst : replaceAll plusAfterQuoted (partsText ((literal, gap) :: parts)) =
        partsText (startsFrom false ((literal, gap) :: parts)) := by
      rw [partsText, startsFrom, Bool.false_and, if_neg Bool.false_ne_true]
      cases hplus : startsWithPlus gap with
      | true => rw [replaceAll_plusAfterQuoted_of_plus hliteral hplus hgap, hopening]; rfl
      | false =>
        rw [replaceAll_plusAfterQuoted_of_not hliteral hplus (atQuote_partsText parts), hclosing hgap]
        rfl
    refine ⟨hfirst, fun {before} hbefore => ?_⟩
    cases hplus : startsWithPlus literal with
    | true =>
      rw [partsText, startsFrom, hplus, Bool.true_and, if_pos rfl,
        replaceAll_plusAfterQuoted_of_plus hbefore hplus hliteral, hclosing hgap]
      rfl
    | false =>
      have hsame : startsFrom true ((literal, gap) :: parts) =
          startsFrom false ((literal, gap) :: parts) := by
        rw [startsFrom, startsFrom, hplus]
        rfl
      rw [hsame, ← hfirst, partsText,
        replaceAll_plusAfterQuoted_of_not hbefore hplus (atQuote_quote _)]

/-! ### Plus signs before two quotes -/

/-- What the second search makes of literals and the gaps after them. -/
def endsFrom : QuotedParts → QuotedParts
  | [] => []
  | (literal, gap) :: parts =>
    (joinNext (!parts.isEmpty) literal, joinNext (!parts.isEmpty) gap) :: endsFrom parts

/-- Two quotes are left in the text, which starts with the first. -/
def twoQuotes : Text → Bool
  | [] => false
  | _ :: cs => cs.any (· == quote)

theorem plusBeforeQuoted_append (ht : quote ∉ t) (hu : AtQuote u) :
    plusBeforeQuoted none ('+' :: (t ++ u)) =
      if Text.isBlank t && twoQuotes u then some (['|', '|'], t ++ u) else none := by
  have hahead := opensAhead_append ht hu
  unfold opensAhead at hahead
  rw [plusBeforeQuoted, char?_cons_self, bind_eq_bind, bind_some]
  cases hblank : Text.isBlank t with
  | true =>
    rw [trimStart_append hblank]
    cases u with
    | nil => rfl
    | cons c u =>
      rw [hu c rfl, trimStart_of_head rfl, char?_cons_self]
      rfl
  | false =>
    rw [hblank, Bool.false_and] at hahead
    have hnone : char? quote (t ++ u).trimStart = none := by
      cases h : (t ++ u).trimStart with
      | nil => rfl
      | cons c cs =>
        rw [h] at hahead
        rw [char?, if_neg]
        simpa using hahead
    rw [hnone]
    rfl

theorem replaceAll_plusBeforeQuoted_part {part : Text} (hpart : quote ∉ part) (hu : AtQuote u) :
    replaceAll plusBeforeQuoted (part ++ u) =
      joinNext (twoQuotes u) part ++ replaceAll plusBeforeQuoted u := by
  induction part with
  | nil => cases h : twoQuotes u <;> rfl
  | cons c cs ih =>
    obtain ⟨-, hcs⟩ := not_or.mp (mt mem_cons.mpr hpart)
    by_cases hfound : c = '+' ∧ Text.isBlank cs ∧ twoQuotes u
    · obtain ⟨rfl, hblank, htwo⟩ := hfound
      have hsome : plusBeforeQuoted none (['+'] ++ (cs ++ u)) = some (['|', '|'], cs ++ u) := by
        rw [singleton_append, plusBeforeQuoted_append hcs hu, hblank, htwo]
        rfl
      have hjoin : joinNext true ('+' :: cs) = '|' :: '|' :: cs := by simp [joinNext, joinEnd, hblank]
      rw [cons_append, ← singleton_append, replaceAll_found (fun _ _ => rfl) (by simp) hsome,
        ih hcs, htwo, hjoin, joinNext, if_pos rfl, joinEnd_of_isBlank hblank]
      rfl
    · have hnone : plusBeforeQuoted none (c :: (cs ++ u)) = none := by
        by_cases hplus : c = '+'
        · rw [hplus, plusBeforeQuoted_append hcs hu, if_neg]
          simpa [hplus] using hfound
        · rw [plusBeforeQuoted, char?, if_neg hplus]
          rfl
      have hjoin : joinNext (twoQuotes u) (c :: cs) = c :: joinNext (twoQuotes u) cs := by
        cases htwo : twoQuotes u with
        | false => rfl
        | true =>
          rw [htwo] at hfound
          rw [joinNext, if_pos rfl, joinEnd, if_neg (by simpa using hfound)]
          rfl
      rw [cons_append, replaceAll_cons (fun _ _ => rfl) hnone, ih hcs, hjoin]
      rfl

theorem replaceAll_plusBeforeQuoted_quote (u : Text) :
    replaceAll plusBeforeQuoted (quote :: u) = quote :: replaceAll plusBeforeQuoted u :=
  replaceAll_cons (fun _ _ => rfl) rfl

theorem twoQuotes_partsText (parts : QuotedParts) : twoQuotes (partsText parts) = !parts.isEmpty := by
  cases parts with
  | nil => rfl
  | cons part parts => simp [partsText, twoQuotes]

theorem twoQuotes_literal_end (hgap : quote ∉ gap) (parts : QuotedParts) :
    twoQuotes (quote :: (gap ++ partsText parts)) = !parts.isEmpty := by
  have hnone : gap.any (· == quote) = false := by
    refine List.any_eq_false.mpr fun c hc heq => ?_
    rw [eq_of_beq heq] at hc
    exact hgap hc
  rw [twoQuotes, any_append, hnone]
  cases parts with
  | nil => rfl
  | cons part parts => simp [partsText]

/-- **The second search acts on the parts.** -/
theorem replaceAll_plusBeforeQuoted (h : NoQuotes parts) :
    replaceAll plusBeforeQuoted (partsText parts) = partsText (endsFrom parts) := by
  induction parts with
  | nil => rfl
  | cons part parts ih =>
    obtain ⟨literal, gap⟩ := part
    obtain ⟨hliteral, hgap⟩ := h _ mem_cons_self
    rw [partsText, replaceAll_plusBeforeQuoted_quote,
      replaceAll_plusBeforeQuoted_part hliteral (atQuote_quote _), twoQuotes_literal_end hgap,
      replaceAll_plusBeforeQuoted_quote,
      replaceAll_plusBeforeQuoted_part hgap (atQuote_partsText parts), twoQuotes_partsText,
      ih fun part hpart => h part (mem_cons_of_mem _ hpart)]
    rfl

/-! ### Both searches and the rule -/

theorem noQuotes_cons :
    NoQuotes ((literal, gap) :: parts) ↔ (quote ∉ literal ∧ quote ∉ gap) ∧ NoQuotes parts :=
  forall_mem_cons

theorem noQuote_joinNext (h : quote ∉ t) (more : Bool) : quote ∉ joinNext more t := by
  cases more with
  | false => exact h
  | true => exact noQuote_joinEnd h

theorem noQuotes_startsFrom (h : NoQuotes parts) (free : Bool) :
    NoQuotes (startsFrom free parts) := by
  induction parts generalizing free with
  | nil => exact nofun
  | cons part parts ih =>
    obtain ⟨⟨hliteral, hgap⟩, hparts⟩ := noQuotes_cons.mp h
    rw [startsFrom]
    split_ifs
    · exact noQuotes_cons.mpr ⟨⟨noQuote_joinStart hliteral, hgap⟩, ih hparts true⟩
    · exact noQuotes_cons.mpr ⟨⟨hliteral, noQuote_joinStart hgap⟩, ih hparts false⟩
    · exact noQuotes_cons.mpr ⟨⟨hliteral, hgap⟩, ih hparts true⟩

theorem noQuotes_endsFrom (h : NoQuotes parts) : NoQuotes (endsFrom parts) := by
  induction parts with
  | nil => exact nofun
  | cons part parts ih =>
    obtain ⟨⟨hliteral, hgap⟩, hparts⟩ := noQuotes_cons.mp h
    exact noQuotes_cons.mpr ⟨⟨noQuote_joinNext hliteral _, noQuote_joinNext hgap _⟩, ih hparts⟩

theorem noQuotes_joinedParts (h : NoQuotes parts) : NoQuotes (joinedParts parts) := by
  induction parts with
  | nil => exact nofun
  | cons part parts ih =>
    obtain ⟨⟨hliteral, hgap⟩, hparts⟩ := noQuotes_cons.mp h
    exact noQuotes_cons.mpr ⟨⟨hliteral, noQuote_joinNext (noQuote_joinStart hgap) _⟩, ih hparts⟩

theorem isEmpty_startsFrom (free : Bool) (parts : QuotedParts) :
    (startsFrom free parts).isEmpty = parts.isEmpty := by
  cases parts with
  | nil => rfl
  | cons part parts =>
    rw [startsFrom]
    split_ifs <;> rfl

theorem length_joinNext (more : Bool) (t : Text) :
    (joinNext more t).length = if more && endsWithPlus t then t.length + 1 else t.length := by
  cases more with
  | false => rfl
  | true => exact length_joinEnd t

theorem joinNext_eq_self_iff (more : Bool) (t : Text) :
    joinNext more t = t ↔ (!more || !endsWithPlus t) := by
  constructor
  · intro h
    have hlength := congrArg List.length h
    rw [length_joinNext] at hlength
    by_contra hends
    simp_all
  · intro h
    cases more with
    | false => rfl
    | true => exact joinEnd_eq_self (by simpa using h)

theorem joinNext_joinStart_ne (h : startsWithPlus t) (more : Bool) :
    joinNext more (joinStart t) ≠ t := by
  intro heq
  have hlength := congrArg List.length heq
  rw [length_joinNext, length_joinStart, if_pos h] at hlength
  split_ifs at hlength <;> omega

/-- **Both searches give what the rule gives just when no literal is misread.** -/
theorem endsFrom_startsFrom_eq_iff (free : Bool) (parts : QuotedParts) :
    endsFrom (startsFrom free parts) = joinedParts parts ↔ clearFrom free parts := by
  induction parts generalizing free with
  | nil => exact iff_of_true rfl rfl
  | cons part parts ih =>
    obtain ⟨literal, gap⟩ := part
    rw [startsFrom, joinedParts, clearFrom]
    split_ifs with hstart hgap
    · -- The literal itself is changed.
      rw [endsFrom, hstart, List.cons.injEq, Prod.mk.injEq]
      have hne := joinNext_joinStart_ne (Bool.and_eq_true_iff.mp hstart).2
        (!(startsFrom true parts).isEmpty)
      simp [hne]
    · rw [endsFrom, isEmpty_startsFrom, List.cons.injEq, Prod.mk.injEq, joinNext_eq_self_iff, ih,
        Bool.eq_false_iff.mpr hstart, hgap]
      simp
    · rw [endsFrom, isEmpty_startsFrom, List.cons.injEq, Prod.mk.injEq, joinNext_eq_self_iff, ih,
        Bool.eq_false_iff.mpr hstart, Bool.eq_false_iff.mpr hgap,
        joinStart_eq_self (Bool.eq_false_iff.mpr hgap)]
      simp

theorem concatenation_text (q : QuotedText) :
    concatenation q.text =
      joinNext (!q.parts.isEmpty) q.start ++ partsText (endsFrom (startsFrom false q.parts)) := by
  rw [concatenation, QuotedText.text, replaceAll_plusAfterQuoted_part q.start_noQuote,
    (replaceAll_plusAfterQuoted q.parts_noQuote).1,
    replaceAll_plusBeforeQuoted_part q.start_noQuote (atQuote_partsText _), twoQuotes_partsText,
    isEmpty_startsFrom, replaceAll_plusBeforeQuoted (noQuotes_startsFrom q.parts_noQuote false)]

theorem joined_text (q : QuotedText) :
    joined q.text = joinNext (!q.parts.isEmpty) q.start ++ partsText (joinedParts q.parts) := by
  rw [joined, QuotedText.text, joinedFrom_gap (atQuote_partsText _) q.start_noQuote,
    joinedFrom_partsText q.parts_noQuote, isEmpty_partsText]
  rfl

/-- **Plus signs of a text with balanced quotes are converted by the rule just when no literal is
misread.** -/
theorem concatenation_eq_joined_iff (t : Text) (h : Code.endsQuoted false t = false) :
    ∃ q : QuotedText, q.text = t ∧ (concatenation t = joined t ↔ q.isClear = true) := by
  obtain ⟨q, rfl⟩ := (exists_layout t).1 h
  refine ⟨q, rfl, ?_⟩
  rw [concatenation_text, joined_text, List.append_cancel_left_eq, QuotedText.isClear,
    ← endsFrom_startsFrom_eq_iff]
  refine ⟨partsText_inj (noQuotes_endsFrom (noQuotes_startsFrom q.parts_noQuote false))
    (noQuotes_joinedParts q.parts_noQuote), congrArg partsText⟩

/-- In `'a', '+'` the plus sign stands in quotes, and is joined all the same. -/
theorem concatenation_misread :
    Code.endsQuoted false "'a', '+'".toList = false ∧
      concatenation "'a', '+'".toList = "'a', '||'".toList ∧
      ∃ q : QuotedText, q.text = "'a', '+'".toList ∧ q.isClear = false := by
  refine ⟨rfl, by decide, ?_⟩
  obtain ⟨q, hq, hiff⟩ := concatenation_eq_joined_iff "'a', '+'".toList rfl
  exact ⟨q, hq, Bool.eq_false_iff.mpr (mt hiff.mpr (by decide))⟩

end SqlRoutine.Expression
