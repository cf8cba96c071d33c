import SqlRoutine.DataType.Token
import SqlRoutine.Proofs.Text.Replace

/-! # The characters of tokens

Tokens are cut out of a text, and what is not cut out of it is fixed. So **the tokens of a text without
the sign of variables are without it**, and so are the comments beside them (`tokens?_free`). -/

namespace SqlRoutine.DataType

open List

variable {x : Char} {l : Layout} {r : Option (Text × Text)} {found : Piece} {inner rest u : Text}

/-! ### Parts of a text -/

/-- What is read behind `start` is a part of the text behind it. -/
theorem mem_of_map (start : Text)
    (h : (r.map fun found => (start ++ found.1, found.2)) = some (inner, rest))
    (hr : ∀ {inner rest}, r = some (inner, rest) → x ∈ inner → x ∈ u) (hx : x ∈ inner) :
    x ∈ start ++ u := by
  obtain ⟨found, hfound, heq⟩ := Option.map_eq_some_iff.mp h
  cases heq
  rcases mem_append.mp hx with hx | hx
  · exact mem_append_left u hx
  · exact mem_append_right start (hr hfound hx)

theorem mem_of_closed? {close : Char} (t : Text)
    (h : closed? close t = some (inner, rest)) (hx : x ∈ inner) : x ∈ t := by
  fun_induction closed? close t generalizing inner rest with
  | case1 => cases h
  | case2 => cases h; cases hx
  | case3 => cases h
  | case4 t ih => exact mem_of_map [close] h (fun h hx => mem_cons_of_mem close (ih h hx)) hx
  | case5 => cases h; cases hx
  | case6 c d t _ ih => exact mem_of_map [c] h ih hx

theorem CommentMarks.mem_of_closed? (m : CommentMarks) (depth : ℕ) (t : Text)
    (h : m.closed? depth t = some (inner, rest)) (hx : x ∈ inner) : x ∈ t := by
  fun_induction CommentMarks.closed? m depth t generalizing inner rest with
  | case1 => cases h
  | case2 => cases h; cases hx
  | case3 =>
    rename_i c a b u _ _ _ _ ih
    exact mem_of_map [c, a, b] h ih hx
  | case4 =>
    rename_i c a b u _ _ _ _ ih
    exact mem_of_map [c] h ih hx
  | case5 =>
    rename_i c u _ _ _ _ ih
    exact mem_of_map [c] h ih hx

theorem mem_of_numberRest (t : Text) (point mark signed : Bool)
    (hx : x ∈ (numberRest point mark signed t).1) : x ∈ t := by
  induction t generalizing point mark signed with
  | nil => exact hx
  | cons c t ih =>
    have hgo : ∀ point mark signed, x ∈ c :: (numberRest point mark signed t).1 → x ∈ c :: t := by
      intro point mark signed h
      rcases mem_cons.mp h with rfl | h
      · exact mem_cons_self
      · exact mem_cons_of_mem c (ih point mark signed h)
    rw [numberRest] at hx
    dsimp only at hx
    split_ifs at hx
    · exact hgo _ _ _ hx
    · exact hgo _ _ _ hx
    · exact hgo _ _ _ hx
    · exact hgo _ _ _ hx
    · cases hx

/-! ### Pieces -/

/-- The characters of a token, those of a literal as well. -/
def Lexeme.characters : Lexeme → Text
  | .word t | .quoted t | .number t | .hexadecimal t | .string _ t | .sign t => t

/-- The characters of a piece. -/
def Piece.characters : Piece → Text
  | .lexeme l => l.characters
  | .comment t => t
  | .unclosed => []

variable {t : Text}

theorem number_free (h : '@' ∉ t) : '@' ∉ (number t).1.characters := by
  have hhexadecimal : ∀ (mark : Char) (digits : Text), '@' ≠ mark → '@' ∉ digits →
      '@' ∉ (if !digits.isEmpty && digits.all isHexadecimal then .hexadecimal digits
        else .quoted ('0' :: mark :: digits) : Lexeme).characters := by
    intro mark digits hmark hdigits
    split_ifs
    · exact hdigits
    · simpa [Lexeme.characters] using ⟨hmark, hdigits⟩
  have htake : ∀ {u : Text}, '@' ∉ u → ∀ p : Char → Bool, '@' ∉ u.takeWhile p :=
    fun hu p hin => hu ((List.takeWhile_prefix p).subset hin)
  unfold number
  dsimp only
  split
  · simp only [mem_cons, not_or] at h
    exact hhexadecimal 'x' _ (by decide) (htake h.2.2 _)
  · simp only [mem_cons, not_or] at h
    exact hhexadecimal 'X' _ (by decide) (htake h.2.2 _)
  · exact show '@' ∉ ['0'] by decide
  · exact show '@' ∉ ['0'] by decide
  · exact fun hin => h (mem_of_numberRest _ _ _ _ hin)

theorem phrases_free : ∀ phrase ∈ phrases, '@' ∉ phrase := by decide

theorem longSigns_free : ∀ sign ∈ longSigns, '@' ∉ sign := by decide

theorem wordOrSign_free (h : '@' ∉ t) : '@' ∉ (wordOrSign t).1.characters := by
  unfold wordOrSign
  split
  · next phrase rest hfind =>
    obtain ⟨phrase', hmem, hread⟩ := exists_of_findSome?_eq_some hfind
    obtain ⟨rest', -, heq⟩ := Option.map_eq_some_iff.mp hread
    cases heq
    exact phrases_free phrase hmem
  · split
    · next long hfind => exact longSigns_free long (mem_of_find?_eq_some hfind)
    · split_ifs
      · exact fun hin => h (mem_of_mem_take hin)
      · exact fun hin => h ((List.takeWhile_prefix _).subset hin)

theorem enclosed_free {make : Text → Piece} (hmake : ∀ v, (make v).characters = v)
        (hr : ∀ {inner rest}, r = some (inner, rest) → '@' ∈ inner → '@' ∈ u) (hu : '@' ∉ u)
    (hfind : some (enclosed make r) = some (found, rest)) : '@' ∉ found.characters := by
  cases r with
  | none =>
    cases hfind
    exact not_mem_nil
  | some inside =>
    cases hfind
    rw [hmake]
    exact fun hin => hu (hr rfl hin)

/-- **A piece of a text without the sign is without it.** -/
theorem piece_free {prev : Option Char}
    (hfind : piece prev t = some (found, rest)) (h : '@' ∉ t) : '@' ∉ found.characters := by
  unfold piece at hfind
  split at hfind
  · cases hfind
  · cases hfind
    simp only [mem_cons, not_or] at h
    exact fun hin => h.2.2 ((List.takeWhile_prefix _).subset hin)
  · simp only [mem_cons, not_or] at h
    exact enclosed_free (fun _ => rfl) (CommentMarks.mem_of_closed? _ 0 _) h.2.2 hfind
  · simp only [mem_cons, not_or] at h
    exact enclosed_free (fun _ => rfl) (CommentMarks.mem_of_closed? _ 0 _) h.2.2 hfind
  · exact enclosed_free (fun _ => rfl) (mem_of_closed? _) (not_mem_of_not_mem_cons h) hfind
  · exact enclosed_free (fun _ => rfl) (mem_of_closed? _) (not_mem_of_not_mem_cons h) hfind
  · exact enclosed_free (fun _ => rfl) (mem_of_closed? _) (not_mem_of_not_mem_cons h) hfind
  · simp only [mem_cons, not_or] at h
    exact enclosed_free (fun _ => rfl) (mem_of_closed? _) h.2.2 hfind
  · simp only [mem_cons, not_or] at h
    exact enclosed_free (fun _ => rfl) (mem_of_closed? _) h.2.2 hfind
  · split_ifs at hfind
    · cases hfind
      exact number_free h
    · cases hfind
      exact wordOrSign_free h

/-! ### Tokens -/

/-- A token without the sign of variables, and without it in its comments. -/
structure Token.Free (token : Token) : Prop where
  lexeme : '@' ∉ token.lexeme.characters
  comments : ∀ comment ∈ token.comments, '@' ∉ comment

/-- Tokens without the sign of variables. -/
def Free (tokens : List Token) : Prop := ∀ token ∈ tokens, token.Free

/-- A layout without the sign of variables. -/
structure Layout.Free (l : Layout) : Prop where
  tokens : DataType.Free l.tokens
  waiting : ∀ comment ∈ l.waiting, '@' ∉ comment

theorem Layout.Free.comment (h : l.Free) {comments : List Text}
    (hcomments : ∀ comment ∈ comments, '@' ∉ comment) : (l.comment comments).Free := by
  unfold Layout.comment
  split
  · exact h
  · next last tokens htokens =>
    obtain ⟨hlast, hrest⟩ := forall_mem_cons.mp (htokens ▸ h.tokens)
    exact ⟨forall_mem_cons.mpr ⟨⟨hlast.lexeme,
      forall_mem_append.mpr ⟨hlast.comments, hcomments⟩⟩, hrest⟩, h.waiting⟩

theorem Layout.Free.add? {l' : Layout} (h : l.Free) {part : Char ⊕ Piece}
    (hpart : ∀ found, part = .inr found → '@' ∉ found.characters) (hadd : l.add? part = some l') :
    l'.Free := by
  rcases part with c | (lexeme | text | _)
  · cases hadd
    split_ifs
    · exact ⟨h.tokens, h.waiting⟩
    · exact h
  · cases hadd
    exact ⟨forall_mem_cons.mpr ⟨⟨hpart _ rfl, h.waiting⟩, h.tokens⟩, nofun⟩
  · have htext : ∀ comment ∈ [text], '@' ∉ comment := forall_mem_singleton.mpr (hpart _ rfl)
    cases hadd
    split_ifs
    · exact h.comment htext
    · exact ⟨h.tokens, forall_mem_append.mpr ⟨h.waiting, htext⟩⟩
  · cases hadd

theorem Layout.Free.foldlM {parts : List (Char ⊕ Piece)} : ∀ {l l' : Layout}, l.Free →
    (∀ found, .inr found ∈ parts → '@' ∉ found.characters) →
    parts.foldlM Layout.add? l = some l' → l'.Free := by
  induction parts with
  | nil =>
    intro l l' h _ hfold
    cases hfold
    exact h
  | cons part parts ih =>
    intro l l' h hparts hfold
    rw [foldlM_cons] at hfold
    obtain ⟨next, hadd, hfold⟩ := Option.bind_eq_some_iff.mp hfold
    refine ih (h.add? (fun found hfound => hparts found ?_) hadd)
      (fun found hfound => hparts found (mem_cons_of_mem part hfound)) hfold
    exact hfound ▸ mem_cons_self

/-- **The tokens of a text without the sign of variables are without it.** -/
theorem tokens?_free {tokens : List Token} (htokens : tokens? t = some tokens) (h : '@' ∉ t) :
    Free tokens := by
  obtain ⟨l, hfold, rfl⟩ := Option.map_eq_some_iff.mp htokens
  have hpieces : ∀ found, .inr found ∈ Text.segments piece t → '@' ∉ found.characters := by
    intro found hfound
    obtain ⟨prev, s, rest, hs, hpiece⟩ := Text.exists_of_mem_segmentsFrom hfound
    exact piece_free hpiece fun hin => h (hs.subset hin)
  have hfree : l.Free := Layout.Free.foldlM (l := {}) ⟨nofun, nofun⟩ hpieces hfold
  exact fun token htoken => (hfree.comment hfree.waiting).tokens token (mem_reverse.mp htoken)

end SqlRoutine.DataType
