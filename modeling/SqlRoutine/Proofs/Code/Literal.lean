import SqlRoutine.Expression.Call
import SqlRoutine.Proofs.Code.Level

/-! # Quoted literals

A literal is a text in quotes, with every quote in the text doubled. A text that starts with a quote
and has balanced quotes starts with a literal (`exists_literal`), and the reader of literals stops at
its end (`quotedLiteral?_literal`). -/

namespace SqlRoutine.Code

variable {c : Char} {l : Level} {t : Text}

/-- Every quote is doubled. -/
def doubled (text : Text) : Text := text.flatMap fun c => if c = quote then [quote, quote] else [c]

/-- **The literal of a text.** -/
def literal (text : Text) : Text := quote :: (doubled text ++ [quote])

theorem doubled_cons_quote (text : Text) : doubled (quote :: text) = quote :: quote :: doubled text := rfl

theorem doubled_cons (hc : c ≠ quote) (text : Text) : doubled (c :: text) = c :: doubled text := by
  rw [doubled, List.flatMap_cons, if_neg hc]
  rfl

/-! ### Levels -/

theorem Level.next_quote (l : Level) : l.next quote = { l with quoted := !l.quoted } := if_pos rfl

theorem Level.next_quoted (hl : l.quoted) (hc : c ≠ quote) : l.next c = l := by
  rw [next, if_neg hc, if_pos hl]

/-- **A doubled quote keeps the level.** -/
theorem Level.after_doubled (hl : l.quoted) (text : Text) : l.after (doubled text) = l := by
  induction text with
  | nil => rfl
  | cons c text ih =>
    by_cases hc : c = quote
    · rw [hc, doubled_cons_quote, after_cons, after_cons, next_quote, next_quote, Bool.not_not]
      exact ih
    · rw [doubled_cons hc, after_cons, next_quoted hl hc]
      exact ih

theorem Level.after_literal (hl : l.quoted = false) (text : Text) : l.after (literal text) = l := by
  have hopen : (l.next quote).quoted := by rw [next_quote, hl]; rfl
  rw [literal, after_cons, after_append, after_doubled hopen, next_quote, after_cons, next_quote,
    Bool.not_not]
  rfl

/-- From inside a literal on, the text goes on to the end of the literal. -/
theorem exists_doubled (hl : l.quoted) (ht : (l.after t).quoted = false) :
    ∃ text rest, t = doubled text ++ quote :: rest ∧ rest.head? ≠ some quote := by
  induction hn : t.length using Nat.strong_induction_on generalizing t with
  | _ n ih =>
    subst hn
    cases t with
    | nil =>
      have hend : l.quoted = false := ht
      rw [hl] at hend
      cases hend
    | cons c t =>
      by_cases hc : c = quote
      · subst hc
        cases t with
        | nil => exact ⟨[], [], rfl, nofun⟩
        | cons d t =>
          by_cases hd : d = quote
          · subst hd
            rw [Level.after_cons, Level.after_cons, Level.next_quote, Level.next_quote,
              Bool.not_not] at ht
            obtain ⟨text, rest, rfl, hrest⟩ := ih t.length (by simp) ht rfl
            exact ⟨quote :: text, rest, rfl, hrest⟩
          · exact ⟨[], d :: t, rfl, fun h => hd (Option.some.inj h)⟩
      · rw [Level.after_cons, Level.next_quoted hl hc] at ht
        obtain ⟨text, rest, rfl, hrest⟩ := ih t.length (by simp) ht rfl
        exact ⟨c :: text, rest, by rw [doubled_cons hc]; rfl, hrest⟩

/-- **A text with balanced quotes that starts with a quote starts with a literal.** -/
theorem exists_literal (hl : l.quoted = false)
    (ht : (l.after t).quoted = false) (hquote : t.head? = some quote) :
    ∃ text rest, t = literal text ++ rest ∧ rest.head? ≠ some quote := by
  obtain ⟨t, rfl⟩ := List.head?_eq_some_iff.mp hquote
  have hopen : (l.next quote).quoted := by rw [Level.next_quote, hl]; rfl
  obtain ⟨text, rest, rfl, hrest⟩ := exists_doubled hopen ht
  exact ⟨text, rest, by simp [literal], hrest⟩

end SqlRoutine.Code

namespace SqlRoutine.Expression

open List

open Code (quote doubled doubled_cons doubled_cons_quote)

theorem go_doubled {rest : Text} (hrest : rest.head? ≠ some quote) (text read : Text) :
    quotedLiteral?.go read (doubled text ++ quote :: rest) =
      some (read.reverse ++ doubled text ++ [quote], rest) := by
  induction text generalizing read with
  | nil =>
    cases rest with
    | nil => simp [doubled, quotedLiteral?.go]
    | cons d rest =>
      have hd : d ≠ quote := fun h => hrest (congrArg some h)
      simp [doubled, quotedLiteral?.go, hd]
  | cons c text ih =>
    by_cases hc : c = quote
    · subst hc
      rw [doubled_cons_quote, cons_append, cons_append, quotedLiteral?.go, if_pos rfl,
        if_pos rfl, ih]
      simp
    · obtain ⟨d, t, ht⟩ := exists_cons_of_ne_nil
        (append_ne_nil_of_right_ne_nil (doubled text) (cons_ne_nil quote rest))
      rw [doubled_cons hc, cons_append, ht, quotedLiteral?.go, if_neg hc, ← ht, ih]
      simp

/-- **The reader of literals stops at the end of the literal.** -/
theorem quotedLiteral?_literal (text : Text) {rest : Text} (hrest : rest.head? ≠ some quote) :
    quotedLiteral? (Code.literal text ++ rest) = some (Code.literal text, rest) := by
  rw [Code.literal, cons_append, append_assoc, singleton_append, quotedLiteral?,
    Text.char?_cons_self]
  exact go_doubled hrest text [quote]

theorem quotedLiteral?_of_head {t : Text} (h : t.head? ≠ some quote) : quotedLiteral? t = none := by
  cases t with
  | nil => rfl
  | cons c t =>
    have hc : c ≠ quote := fun hc => h (congrArg some hc)
    rw [quotedLiteral?, Text.char?, if_neg hc]

end SqlRoutine.Expression
