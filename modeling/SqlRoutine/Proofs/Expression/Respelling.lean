import SqlRoutine.Proofs.Expression.CharIndex

/-! # Words that are spelled anew

The last four steps of a conversion each put new words in the places of others: `char_length` for `Len`,
`position` for `CharIndex`, a variable for `Convert` and `text` for a long `varchar`. The new words start
with letters that stand later in a fixed order (`rank`), so the first place where a text and its
conversion differ shows that the text has moved up (`Respelled`), and no later step brings it back.
Hence **a text is converted to itself just when none of the four steps finds anything in it**
(`respell_eq_self_iff`). -/

namespace SqlRoutine.Expression

open List Option Text

/-- The order of the letters that words start with: `Len` becomes a word with `c`, and the words with
`c`, `n` and `v` become words with other letters. -/
def rank (c : Char) : ℕ :=
  match letterKey c with
  | 'l' => 0
  | 'c' | 'n' | 'v' => 1
  | _ => 2

/-- The letters that the new words start with. -/
def newLetters : List Char := ['c', 'p', '_', 't']

/-- The second text is the first one up to a place where a word starts, and there a new word starts in it.
`prev` stands before both. -/
inductive Respelled : Option Char → Text → Text → Prop
  | same (prev : Option Char) (t : Text) : Respelled prev t t
  | word {prev : Option Char} {c d : Char} {t u : Text} (hstart : atWordStart prev)
      (hd : d ∈ newLetters) (hrank : rank c < rank d) : Respelled prev (c :: t) (d :: u)
  | next {prev : Option Char} {c : Char} {t u : Text} (h : Respelled (some c) t u) :
      Respelled prev (c :: t) (c :: u)

namespace Respelled

variable {prev : Option Char} {c d : Char} {s t u : Text}

theorem trans (hst : Respelled prev s t) (htu : Respelled prev t u) : Respelled prev s u := by
  induction hst generalizing u with
  | same => exact htu
  | word hstart hd hrank =>
    cases htu with
    | same => exact .word hstart hd hrank
    | word _ hd' hrank' => exact .word hstart hd' (hrank.trans hrank')
    | next => exact .word hstart hd hrank
  | next h ih =>
    cases htu with
    | same => exact .next h
    | word hstart hd hrank => exact .word hstart hd hrank
    | next h' => exact .next (ih h')

/-- **No text moves up and back again.** -/
theorem antisymm (hst : Respelled prev s t) (hts : Respelled prev t s) : s = t := by
  induction hst with
  | same => rfl
  | word hstart hd hrank =>
    cases hts with
    | same => rfl
    | word _ _ hrank' => omega
    | next => omega
  | next h ih =>
    cases hts with
    | same => rfl
    | word _ _ hrank => omega
    | next h' => rw [ih h']

theorem tail (h : Respelled prev (c :: t) (c :: u)) : Respelled (some c) t u := by
  cases h with
  | same => exact .same _ t
  | word _ _ hrank => omega
  | next h => exact h

theorem exists_tail (h : Respelled prev t (d :: u)) (hd : atWordStart prev → d ∉ newLetters) :
    ∃ s, t = d :: s ∧ Respelled (some d) s u := by
  cases h with
  | same => exact ⟨u, rfl, .same _ u⟩
  | word hstart hnew _ => exact absurd hnew (hd hstart)
  | next h => exact ⟨_, rfl, h⟩

theorem eq_nil (h : Respelled prev t []) : t = [] := by
  cases h with
  | same => rfl

theorem append (m : Text) (h : Respelled (m.getLast?.or prev) t u) : Respelled prev (m ++ t) (m ++ u) := by
  induction m generalizing prev with
  | nil => exact h
  | cons c m ih =>
    rw [getLast?_cons_or] at h
    exact .next (ih h)

theorem of_append {m : Text} (h : Respelled prev (m ++ t) (m ++ u)) :
    Respelled (m.getLast?.or prev) t u := by
  induction m generalizing prev with
  | nil => exact h
  | cons c m ih =>
    rw [getLast?_cons_or]
    exact ih h.tail

end Respelled

/-! ### Finders -/

/-- A word that starts at `t` and for which `r` is written starts anew. -/
structure StartsAnew (prev : Option Char) (t r : Text) : Prop where
  start : atWordStart prev
  letters : ∃ c t' d r', t = c :: t' ∧ r = d :: r' ∧ d ∈ newLetters ∧ rank c < rank d

/-- What is found is kept or starts anew. -/
structure Respells (find : Finder Text) : Prop where
  proper : Proper find
  found : ∀ prev t r rest, find prev t = some (r, rest) → t = r ++ rest ∨ StartsAnew prev t r

/-- All that is found starts anew. -/
structure SpellsAnew (find : Finder Text) : Prop where
  proper : Proper find
  found : ∀ prev t r rest, find prev t = some (r, rest) → StartsAnew prev t r

variable {find : Finder Text} {t : Text}

theorem SpellsAnew.respells (h : SpellsAnew find) : Respells find :=
  ⟨h.proper, fun prev t r rest hfind => .inr (h.found prev t r rest hfind)⟩

theorem Respells.replaceFrom (h : Respells find) (prev : Option Char) (t : Text) :
    Respelled prev t (replaceFrom find prev t) := by
  refine replaceFrom_induction h.proper (P := Respelled) ?_ ?_ ?_ prev t
  · exact fun prev => .same prev []
  · exact fun prev c cs _ ih => .next ih
  · intro prev m r rest hm hfind ih
    rcases h.found prev _ r rest hfind with hkept | ⟨hstart, c, t', d, r', ht, rfl, hd, hrank⟩
    · rw [append_cancel_right hkept]
      have hlast : r.getLast?.or prev = r.getLast? := by
        rw [← append_cancel_right hkept, getLast?_eq_some_getLast hm]
        rfl
      refine .append r ?_
      rw [hlast, ← append_cancel_right hkept]
      exact ih
    · rw [ht]
      exact .word hstart hd hrank

section

variable {α : Type} {look : Finder α} (hlook : ∀ prev t, (look prev t).isSome = (find prev t).isSome)

include hlook

theorem replaceFrom_of_findFrom (prev : Option Char) (n : ℕ) (h : findFrom look prev n t = none) :
    replaceFrom find prev t = t := by
  induction t generalizing prev n with
  | nil => rfl
  | cons c cs ih =>
    have hsome := hlook prev (c :: cs)
    rw [findFrom] at h
    split at h
    · cases h
    · next hnone =>
      rw [hnone, isSome_none, eq_comm, isSome_eq_false_iff, isNone_iff_eq_none] at hsome
      rw [replaceFrom_of_none hsome, ih (some c) (n + 1) h]

theorem findFrom_of_replaceFrom (hanew : SpellsAnew find) (prev : Option Char) (n : ℕ)
    (h : replaceFrom find prev t = t) : findFrom look prev n t = none := by
  induction t generalizing prev n with
  | nil => rfl
  | cons c cs ih =>
    have hsome := hlook prev (c :: cs)
    cases hfind : find prev (c :: cs) with
    | none =>
      rw [hfind, isSome_none, isSome_eq_false_iff, isNone_iff_eq_none] at hsome
      rw [replaceFrom_of_none hfind] at h
      rw [findFrom, hsome]
      exact ih (some c) (n + 1) (List.cons.inj h).2
    | some found =>
      obtain ⟨r, rest⟩ := found
      obtain ⟨-, c', t', d, r', ht, rfl, -, hrank⟩ := hanew.found _ _ _ _ hfind
      obtain ⟨m, hm, hsplit⟩ := hanew.proper _ _ _ _ hfind
      rw [hsplit] at hfind
      rw [hsplit, replaceFrom_of_found hm hfind, ← hsplit, ht, cons_append] at h
      rw [(List.cons.inj h).1] at hrank
      omega

end

/-! ### The four steps -/

/-- **The last steps of a conversion.** -/
def respell (p : Profile) (t : Text) : Text :=
  DataType.longVarchar p.textLength (renameConvert p (renameCharIndex (renameLen t)))

theorem convert_eq_respell (p : Profile) (t : Text) :
    (convert p t).value = respell p (concatenation (localNames t)) := by
  simp only [convert, calls, respell, Noted.value_bind, Noted.value_pure]

theorem exists_head_of_keyword? {k : Char} {ks rest : Text} (h : keyword? (k :: ks) t = some rest) :
    ∃ c t', t = c :: t' ∧ rank c = rank k := by
  obtain ⟨m, hm, rfl⟩ := keyword?_eq_some_iff.mp h
  cases m with
  | nil => cases hm
  | cons c m =>
    refine ⟨c, m ++ rest, rfl, ?_⟩
    rw [Spells, map_cons, map_cons] at hm
    rw [rank, rank, (List.cons.inj hm).1]

theorem exists_head_of_callOf? {k : Char} {ks : Text} (h : (callOf? (k :: ks) t).isSome) :
    ∃ c t', t = c :: t' ∧ rank c = rank k := by
  obtain ⟨rest, hrest⟩ := isSome_iff_exists.mp h
  obtain ⟨left, hleft, -⟩ := bind_eq_some_iff.mp hrest
  exact exists_head_of_keyword? hleft

/-- A finder of calls that writes a word of its own. -/
theorem FindsCalls.spellsAnew {k d : Char} {ks : Text} (h : FindsCalls (k :: ks) find)
    (hproper : Proper find) (hd : d ∈ newLetters) (hrank : rank k < rank d)
    (hwrite : ∀ prev t found, find prev t = some found → found.1.head? = some d) : SpellsAnew find where
  proper := hproper
  found prev t r rest hfind := by
    obtain ⟨hstart, hcall⟩ := h prev t _ hfind
    obtain ⟨c, t', rfl, hc⟩ := exists_head_of_callOf? hcall
    obtain ⟨r', rfl⟩ := head?_eq_some_iff.mp (hwrite _ _ _ hfind)
    exact ⟨hstart, c, t', d, r', rfl, rfl, hd, hc ▸ hrank⟩

theorem lenFinder_spellsAnew : SpellsAnew lenFinder := by
  refine (findsCalls_wordFinder "Len".toList _).spellsAnew (d := 'c') keeps_lenFinder.proper
    (by decide) (by decide) fun prev t found h => ?_
  unfold lenFinder wordFinder at h
  split_ifs at h
  obtain ⟨rest, -, rfl⟩ := map_eq_some_iff.mp h
  rfl

theorem charIndexFinder_spellsAnew : SpellsAnew charIndexFinder := by
  refine findsCalls_charIndexFinder.spellsAnew (d := 'p') keeps_charIndexFinder.proper
    (by decide) (by decide) fun prev t found h => ?_
  unfold charIndexFinder atWord at h
  split_ifs at h
  obtain ⟨read, -, rfl⟩ := map_eq_some_iff.mp h
  rfl

theorem convertFinder_spellsAnew (p : Profile) : SpellsAnew (convertFinder p) := by
  refine (findsCalls_convertFinder p).spellsAnew (d := '_') (fills_convertFinder p).proper
    (by decide) (by decide) fun prev t found h => ?_
  unfold convertFinder atWord at h
  split_ifs at h
  obtain ⟨read, -, rfl⟩ := map_eq_some_iff.mp h
  rfl

theorem varcharFinder_respells (p : Profile) : Respells (varcharFinder p.textLength) where
  proper := (keeps_varcharFinder p.textLength).proper
  found prev t r rest h := by
    unfold varcharFinder at h
    split_ifs at h with hstart
    obtain ⟨⟨length, rest'⟩, hread, heq⟩ := map_eq_some_iff.mp h
    obtain ⟨rfl, rfl⟩ := Prod.mk.inj heq
    split_ifs with hlong
    · right
      obtain ⟨left, hword, -⟩ := bind_eq_some_iff.mp hread
      obtain ⟨word, hmem, hkeyword⟩ := exists_of_findSome?_eq_some hword
      obtain ⟨k, ks, rfl, hk⟩ : ∃ k ks, word = k :: ks ∧ rank k = 1 := by
        simp only [mem_cons, not_mem_nil, or_false] at hmem
        rcases hmem with rfl | rfl
        · exact ⟨'n', _, rfl, rfl⟩
        · exact ⟨'v', _, rfl, rfl⟩
      obtain ⟨c, t', rfl, hc⟩ := exists_head_of_keyword? hkeyword
      exact ⟨hstart, c, t', 't', _, rfl, rfl, by decide, by rw [hc, hk]; decide⟩
    · left
      obtain ⟨m, rfl, -⟩ := DataType.varchar?_eq_some_iff.mp hread
      rw [readBefore_append]

theorem renameLen_respelled (t : Text) : Respelled none t (renameLen t) :=
  lenFinder_spellsAnew.respells.replaceFrom none t

theorem renameCharIndex_respelled (t : Text) : Respelled none t (renameCharIndex t) :=
  charIndexFinder_spellsAnew.respells.replaceFrom none t

theorem renameConvert_respelled (p : Profile) (t : Text) : Respelled none t (renameConvert p t) :=
  (convertFinder_spellsAnew p).respells.replaceFrom none t

theorem longVarchar_respelled (p : Profile) (t : Text) :
    Respelled none t (DataType.longVarchar p.textLength t) :=
  (varcharFinder_respells p).replaceFrom none t

/-- **A conversion moves a text up, if it does not keep it.** -/
theorem respell_respelled (p : Profile) (t : Text) : Respelled none t (respell p t) :=
  (renameLen_respelled t).trans <| (renameCharIndex_respelled _).trans <|
    (renameConvert_respelled p _).trans <| longVarchar_respelled p _

/-! ### Texts that are kept -/

/-- **Nothing in a text is spelled anew**: no call of `Len` starts in it, neither `CharIndex` nor
`Convert` can be read with its arguments, and there is no long `varchar`. -/
structure Settled (p : Profile) (t : Text) : Prop where
  len : t.find? (wordFinder (callOf? "Len".toList) []) = none
  charIndex : t.find? (atWord charIndex?) = none
  convert : t.find? (atWord convert?) = none
  varchar : DataType.longVarchar p.textLength t = t

theorem isSome_lenFinder (prev : Option Char) (t : Text) :
    (wordFinder (callOf? "Len".toList) [] prev t).isSome = (lenFinder prev t).isSome := by
  unfold lenFinder wordFinder
  split_ifs
  · rw [isSome_map, isSome_map]
  · rfl

theorem isSome_atWord {α β : Type} (scan : Text → Option (α × Text)) (write : α × Text → β × Text)
    (prev : Option Char) (t : Text) :
    (atWord scan prev t).isSome = (atWord (fun t => (scan t).map write) prev t).isSome := by
  unfold atWord
  split_ifs
  · rw [isSome_map]
  · rfl

/-- **A text is converted to itself just when nothing in it is spelled anew.** -/
theorem respell_eq_self_iff (p : Profile) (t : Text) : respell p t = t ↔ Settled p t := by
  constructor
  · intro h
    rw [respell] at h
    -- the text goes up from step to step and ends where it started, so no step has moved it
    have hlen := renameLen_respelled t
    have hcharIndex := renameCharIndex_respelled (renameLen t)
    have hconvert := renameConvert_respelled p (renameCharIndex (renameLen t))
    have hlong := longVarchar_respelled p (renameConvert p (renameCharIndex (renameLen t)))
    rw [h] at hlong
    have hthird := hlong.antisymm (hlen.trans (hcharIndex.trans hconvert))
    rw [hthird] at h hconvert
    have hsecond := hconvert.antisymm (hlen.trans hcharIndex)
    rw [hsecond] at hthird hcharIndex
    have hfirst := hcharIndex.antisymm hlen
    rw [hfirst] at hsecond
    exact ⟨findFrom_of_replaceFrom isSome_lenFinder lenFinder_spellsAnew none 0 hfirst,
      findFrom_of_replaceFrom (isSome_atWord _ _) charIndexFinder_spellsAnew none 0 hsecond,
      findFrom_of_replaceFrom (isSome_atWord _ _) (convertFinder_spellsAnew p) none 0 hthird, h⟩
  · rintro ⟨hlen, hcharIndex, hconvert, hvarchar⟩
    have hfirst : renameLen t = t := replaceFrom_of_findFrom isSome_lenFinder none 0 hlen
    have hsecond : renameCharIndex t = t :=
      replaceFrom_of_findFrom (isSome_atWord charIndex? _) none 0 hcharIndex
    have hthird : renameConvert p t = t :=
      replaceFrom_of_findFrom (isSome_atWord convert? _) none 0 hconvert
    rw [respell, hfirst, hsecond, hthird, hvarchar]

end SqlRoutine.Expression
