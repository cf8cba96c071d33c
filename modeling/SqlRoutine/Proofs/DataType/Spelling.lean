import SqlRoutine.DataType
import SqlRoutine.Proofs.DataType.Token

/-! # The characters of a type

A type is written with characters of the text it was read from, in some case, and with fixed ones. So
**a text without the sign of variables is without it as a type** (`spelling?_free`), which is all that is
known of a mapping of types elsewhere (`Mapping.Free`). Each reader is given tokens without the sign, and
gives texts without it and tokens of the same kind. -/

namespace SqlRoutine

open List Option Text

variable {base : Base} {family : Family} {comments texts ts : List Text} {sep spelling : Text} {v : Value}
  {fuel : ℕ}

theorem Text.sigil_mem_join : ∀ {ts : List Text}, '@' ∈ join sep ts → '@' ∈ sep ∨ ∃ t ∈ ts, '@' ∈ t
  | [], h => absurd h not_mem_nil
  | [t], h => .inr ⟨t, mem_singleton_self t, h⟩
  | t :: u :: ts, h => by
    rw [join, mem_append, mem_append] at h
    · rcases h with (h | h) | h
      · exact .inr ⟨t, mem_cons_self, h⟩
      · exact .inl h
      · rcases sigil_mem_join h with h | ⟨v, hv, h⟩
        · exact .inl h
        · exact .inr ⟨v, mem_cons_of_mem t hv, h⟩
    · simp

namespace DataType

variable {t : Text} {tokens rest : List Token}

/-! ### Writing -/

theorem join_free (hsep : '@' ∉ sep) (hts : ∀ t ∈ ts, '@' ∉ t) : '@' ∉ join sep ts := by
  intro h
  rcases sigil_mem_join h with h | ⟨t, ht, h⟩
  · exact hsep h
  · exact hts t ht h

theorem inParentheses_free (hts : ∀ t ∈ ts, '@' ∉ t) : '@' ∉ inParentheses ts := by
  have hjoin : '@' ∉ join ", ".toList ts := join_free (by decide) hts
  simpa [inParentheses] using hjoin

theorem commentText_free (h : '@' ∉ t) : '@' ∉ commentText t := by
  have hspace : ∀ b : Bool, '@' ∉ (if b then " " else "").toList := by decide
  unfold commentText
  simp only [mem_append, not_or]
  refine ⟨⟨⟨⟨by decide, hspace _⟩, fun hin => h (mem_of_mem_replaceAll (fun prev u r rest hfind => ?_)
    (fun prev u r rest hfind hr => ?_) hin)⟩, hspace _⟩, by decide⟩
  · split at hfind
    · cases hfind
      exact ⟨['*', '/'], by simp, rfl⟩
    · cases hfind
      exact ⟨['/', '*'], by simp, rfl⟩
    · cases hfind
  · split at hfind
    · cases hfind
      exact absurd hr (by decide)
    · cases hfind
      exact absurd hr (by decide)
    · cases hfind

theorem withComments_free (h : '@' ∉ t)
    (hcomments : ∀ comment ∈ comments, '@' ∉ comment) : '@' ∉ withComments t comments := by
  simp only [withComments, mem_append, mem_flatMap, mem_filter, mem_cons, not_or,
    not_exists]
  refine ⟨h, fun comment hcomment => ?_⟩
  rcases hcomment with ⟨⟨hmem, -⟩, hblank | hin⟩
  · cases hblank
  · exact commentText_free (hcomments comment hmem) hin

theorem between_free {quote : Char} (hquote : '@' ≠ quote) (h : '@' ∉ t) : '@' ∉ between quote t := by
  simp only [between, cons_append, mem_cons, mem_append, mem_flatMap, not_or,
    not_mem_nil, or_false]
  refine ⟨hquote, ?_, hquote⟩
  rintro ⟨c, hc, hin⟩
  have hsame : '@' = c := by
    split_ifs at hin
    · simpa using hin
    · simpa using hin
  exact h (hsame ▸ hc)

/-! ### Lists -/

/-- The reader of an item keeps the sign out. -/
def ItemFree (item : List Token → Option Text × List Token) : Prop :=
  ∀ tokens, Free tokens → (∀ t ∈ (item tokens).1, '@' ∉ t) ∧ Free (item tokens).2

theorem items_free {item : List Token → Option Text × List Token} (hitem : ItemFree item) :
    ∀ (fuel : ℕ) (tokens : List Token), Free tokens →
      (∀ t ∈ (items item fuel tokens).1, '@' ∉ t) ∧ Free (items item fuel tokens).2
  | 0, _, h => ⟨nofun, h⟩
  | fuel + 1, tokens, h => by
    obtain ⟨htext, hrest⟩ := hitem tokens h
    rw [items]
    split
    · next text comments rest heq =>
      rw [heq] at htext hrest
      obtain ⟨hcomma, hafter⟩ := forall_mem_cons.mp hrest
      obtain ⟨htexts, hleft⟩ := items_free hitem fuel rest hafter
      refine ⟨forall_mem_append.mpr ⟨fun t ht => ?_, htexts⟩, hleft⟩
      obtain ⟨u, hu, rfl⟩ := map_eq_some_iff.mp (mem_toList.mp ht)
      exact withComments_free (htext u hu) hcomma.comments
    · next text rest _ heq =>
      rw [heq] at htext hrest
      exact ⟨fun t ht => htext t (mem_toList.mp ht), hrest⟩

theorem closedItems?_free {item : List Token → Option Text × List Token} (hitem : ItemFree item)
    (hread : closedItems? item tokens = some (texts, rest)) (h : Free tokens) :
    (∀ t ∈ texts, '@' ∉ t) ∧ Free rest := by
  obtain ⟨htexts, hrest⟩ := items_free hitem (tokens.length + 1) tokens h
  unfold closedItems? at hread
  split at hread
  · next heq =>
    cases hread
    rw [heq] at htexts hrest
    exact ⟨htexts, (forall_mem_cons.mp hrest).2⟩
  · cases hread

/-! ### Values -/

/-- A value without the sign of variables. -/
def Value.Free : Value → Prop
  | .literal t | .other t => '@' ∉ t
  | .name parts => ∀ part ∈ parts, '@' ∉ part.text

theorem Part.render_free {part : Part} (h : '@' ∉ part.text) : '@' ∉ part.render := by
  unfold Part.render
  split_ifs
  · exact between_free (by decide) h
  · exact h

theorem Value.Free.render (h : v.Free) : '@' ∉ v.render := by
  cases v with
  | literal t => exact h
  | other t => exact h
  | name parts =>
    refine join_free (by decide) fun t ht => ?_
    obtain ⟨part, hpart, rfl⟩ := List.mem_map.mp ht
    exact Part.render_free (h part hpart)

theorem Value.Free.parameter (h : v.Free) : '@' ∉ v.parameter := by
  unfold Value.parameter
  split
  · next part => exact fun hin => h part (mem_singleton_self part) (sigil_mem_upper hin)
  · exact h.render

theorem literal?_free (hread : literal? tokens = some (t, rest)) (h : Free tokens) :
    '@' ∉ t ∧ Free rest := by
  unfold literal? at hread
  split at hread
  · cases hread
    obtain ⟨hnumber, hrest⟩ := forall_mem_cons.mp h
    exact ⟨withComments_free hnumber.lexeme hnumber.comments, hrest⟩
  · next n comments rest =>
    cases hread
    obtain ⟨-, hrest⟩ := forall_mem_cons.mp h
    obtain ⟨hnumber, hrest⟩ := forall_mem_cons.mp hrest
    refine ⟨withComments_free ?_ hnumber.comments, hrest⟩
    have hdigits : '@' ∉ n := hnumber.lexeme
    simpa using hdigits
  · next national text comments rest =>
    cases hread
    obtain ⟨hstring, hrest⟩ := forall_mem_cons.mp h
    refine ⟨withComments_free ?_ hstring.comments, hrest⟩
    have hquoted : '@' ∉ between '\x27' text := between_free (by decide) hstring.lexeme
    cases national <;> simpa using hquoted
  · next digits comments rest =>
    cases hread
    obtain ⟨hdigits, hrest⟩ := forall_mem_cons.mp h
    refine ⟨withComments_free ?_ hdigits.comments, hrest⟩
    have hquoted : '@' ∉ between '\x27' digits := between_free (by decide) hdigits.lexeme
    simpa using hquoted
  · cases hread

theorem parts_free (h : Free tokens) :
    (∀ part ∈ (parts tokens).1, '@' ∉ part.text) ∧ Free (parts tokens).2 := by
  fun_induction parts tokens with
  | case1 _ t _ rest further rest' heq ih =>
    obtain ⟨-, hname⟩ := forall_mem_cons.mp h
    obtain ⟨hword, hrest⟩ := forall_mem_cons.mp hname
    rw [heq] at ih
    exact ⟨forall_mem_cons.mpr ⟨hword.lexeme, (ih hrest).1⟩, (ih hrest).2⟩
  | case2 _ t _ rest further rest' heq ih =>
    obtain ⟨-, hname⟩ := forall_mem_cons.mp h
    obtain ⟨hquoted, hrest⟩ := forall_mem_cons.mp hname
    rw [heq] at ih
    exact ⟨forall_mem_cons.mpr ⟨hquoted.lexeme, (ih hrest).1⟩, (ih hrest).2⟩
  | case3 rest _ _ => exact ⟨nofun, h⟩

theorem variableName?_free (hread : variableName? tokens = some (t, rest)) (h : Free tokens) :
    '@' ∉ t ∧ Free rest := by
  unfold variableName? at hread
  split at hread
  · cases hread
    obtain ⟨hword, hrest⟩ := forall_mem_cons.mp h
    exact ⟨hword.lexeme, hrest⟩
  · cases hread
    obtain ⟨hnumber, hrest⟩ := forall_mem_cons.mp h
    exact ⟨hnumber.lexeme, hrest⟩
  · cases hread
    obtain ⟨hquoted, hrest⟩ := forall_mem_cons.mp h
    exact ⟨between_free (by decide) hquoted.lexeme, hrest⟩
  · cases hread

theorem bases_free : ∀ entry ∈ bases, '@' ∉ entry.2.spelling ∧
    ∀ unsigned ∈ entry.2.unsigned, '@' ∉ unsigned := by
  decide +kernel

theorem base?_free (h : base? t = some base) :
    '@' ∉ base.spelling ∧ ∀ unsigned ∈ base.unsigned, '@' ∉ unsigned := by
  obtain ⟨l₁, l₂, hl, -⟩ := lookup_eq_some_iff.mp h
  exact bases_free (t.upper, base) (by rw [hl]; simp)

/-- Reads a value as an item with the given fuel. -/
def itemOf (fuel : ℕ) (tokens : List Token) : Option Text × List Token :=
  match value? fuel tokens with
  | some (v, rest) => (some v.render, rest)
  | none => (none, tokens)

/-- The reader of values keeps the sign out. -/
def ValueFree (fuel : ℕ) : Prop :=
  ∀ tokens v rest, value? fuel tokens = some (v, rest) → Free tokens → v.Free ∧ Free rest

theorem itemOf_free (hvalue : ValueFree fuel) : ItemFree (itemOf fuel) := by
  intro tokens h
  unfold itemOf
  split
  · next v rest hread =>
    obtain ⟨hv, hrest⟩ := hvalue tokens v rest hread h
    exact ⟨fun t ht => mem_some_iff.mp ht ▸ hv.render, hrest⟩
  · exact ⟨nofun, h⟩

/-- A word as a value: a name, a call, or a type before a literal. -/
theorem wordValue_free (hvalue : ValueFree fuel)
    {after : List Token} (hliteral : literal? (⟨.word t, comments⟩ :: after) = none)
    (hread : value? (fuel + 1) (⟨.word t, comments⟩ :: after) = some (v, rest))
    (h : Free (⟨.word t, comments⟩ :: after)) : v.Free ∧ Free rest := by
  obtain ⟨hword, hafter⟩ := forall_mem_cons.mp h
  have ht : '@' ∉ t := hword.lexeme
  rw [value?.eq_def] at hread
  simp only [hliteral] at hread
  split_ifs at hread
  · cases hread
    exact ⟨ht, hafter⟩
  · split at hread
    · obtain ⟨⟨texts, rest'⟩, hclosed, heq⟩ := map_eq_some_iff.mp hread
      cases heq
      obtain ⟨htexts, hrest⟩ := closedItems?_free (itemOf_free hvalue) hclosed
        (forall_mem_cons.mp hafter).2
      have hupper : '@' ∉ t.upper := fun hin => ht (sigil_mem_upper hin)
      exact ⟨by simpa [Value.Free] using ⟨hupper, inParentheses_free htexts⟩, hrest⟩
    · split at hread
      · next base text rest' hbase hread' =>
        cases hread
        obtain ⟨htext, hrest⟩ := literal?_free hread' hafter
        have hspelling := (base?_free hbase).1
        have hcast : '@' ∉ "CAST(".toList ∧ '@' ∉ " AS ".toList := by decide
        exact ⟨by simpa [Value.Free, hcast] using ⟨htext, hspelling⟩, hrest⟩
      · cases hread
        obtain ⟨hparts, hrest⟩ := parts_free hafter
        exact ⟨forall_mem_cons.mpr ⟨ht, hparts⟩, hrest⟩

theorem value?_free (fuel : ℕ) : ValueFree fuel := by
  induction fuel with
  | zero =>
    intro tokens v rest hread
    cases hread
  | succ fuel hvalue =>
    intro tokens v rest hread h
    rw [value?.eq_def] at hread
    dsimp only at hread
    split at hread
    · next t rest' hliteral =>
      cases hread
      exact literal?_free hliteral h
    · next hliteral =>
      split at hread
      · cases hread
        exact ⟨show '@' ∉ ['*'] by decide, (forall_mem_cons.mp h).2⟩
      · cases hread
        exact ⟨show '@' ∉ ['?'] by decide, (forall_mem_cons.mp h).2⟩
      · obtain ⟨⟨name, rest'⟩, hname, heq⟩ := map_eq_some_iff.mp hread
        cases heq
        obtain ⟨hfree, hrest⟩ := variableName?_free hname (forall_mem_cons.mp h).2
        exact ⟨by simpa [Value.Free] using hfree, hrest⟩
      · obtain ⟨⟨texts, rest'⟩, hclosed, heq⟩ := map_eq_some_iff.mp hread
        cases heq
        obtain ⟨htexts, hrest⟩ := closedItems?_free (itemOf_free hvalue) hclosed
          (forall_mem_cons.mp h).2
        exact ⟨inParentheses_free htexts, hrest⟩
      · obtain ⟨hquoted, hafter⟩ := forall_mem_cons.mp h
        obtain ⟨hparts, hrest⟩ := parts_free hafter
        cases hread
        exact ⟨forall_mem_cons.mpr ⟨hquoted.lexeme, hparts⟩, hrest⟩
      · refine wordValue_free hvalue hliteral ?_ h
        rw [value?.eq_def]
        simp only [hliteral]
        exact hread
      · cases hread

theorem valueItem_free : ItemFree valueItem :=
  fun tokens => itemOf_free (value?_free (tokens.length + 1)) tokens

/-! ### Parameters -/

theorem dropQualifier_free (h : Free tokens) : Free (dropQualifier tokens) := by
  unfold dropQualifier
  split
  · exact (forall_mem_cons.mp h).2
  · next comments rest =>
    cases hname : variableName? rest with
    | none => exact h
    | some found => exact (variableName?_free hname (forall_mem_cons.mp h).2).2
  · split_ifs
    · exact (forall_mem_cons.mp h).2
    · exact h
  · exact h

theorem parameter_free : ItemFree parameter := by
  intro tokens h
  unfold parameter
  split
  · next v rest hread =>
    obtain ⟨hv, hrest⟩ := value?_free _ tokens v rest hread h
    exact ⟨fun t ht => mem_some_iff.mp ht ▸ hv.parameter, dropQualifier_free hrest⟩
  · exact ⟨nofun, h⟩

theorem words?_free {words : List Text} (hread : words? words tokens = some rest) (h : Free tokens) :
    Free rest := by
  induction words generalizing tokens with
  | nil =>
    cases hread
    exact h
  | cons word words ih =>
    cases tokens with
    | nil => cases hread
    | cons token tokens =>
      rw [words?] at hread
      split_ifs at hread
      exact ih hread (forall_mem_cons.mp h).2

theorem modified_free (hspelling : '@' ∉ base.spelling)
    (hunsigned : ∀ unsigned ∈ base.unsigned, '@' ∉ unsigned)
    (hmodified : base.modified tokens = (spelling, family, rest)) (h : Free tokens) :
    '@' ∉ spelling ∧ Free rest := by
  unfold Base.modified at hmodified
  dsimp only at hmodified
  split at hmodified
  · -- a time, perhaps with a zone
    split at hmodified
    · next hzone =>
      cases hmodified
      refine ⟨?_, words?_free hzone h⟩
      split_ifs <;> decide
    · next hzone _ =>
      cases hmodified
      exact ⟨by decide, words?_free hzone h⟩
    · next hzone _ _ =>
      cases hmodified
      exact ⟨hspelling, words?_free hzone h⟩
    · cases hmodified
      exact ⟨hspelling, h⟩
  · split at hmodified
    · -- an interval, perhaps with one or two units
      split at hmodified
      · next unit comments after =>
        obtain ⟨hword, hafter⟩ := forall_mem_cons.mp h
        have hone : '@' ∉ base.spelling ++ ' ' :: unit := by
          simpa using ⟨hspelling, (hword.lexeme : '@' ∉ unit)⟩
        split_ifs at hmodified
        · split at hmodified
          · next joint _ last _ after' =>
            obtain ⟨hjoint, hafter'⟩ := forall_mem_cons.mp hafter
            obtain ⟨hlast, hleft⟩ := forall_mem_cons.mp hafter'
            split_ifs at hmodified
            · cases hmodified
              refine ⟨join_free (by decide) ?_, hleft⟩
              simp only [forall_mem_cons]
              exact ⟨hspelling, hword.lexeme, hjoint.lexeme, hlast.lexeme, nofun⟩
            · cases hmodified
              exact ⟨hone, hafter⟩
          · cases hmodified
            exact ⟨hone, hafter⟩
        · cases hmodified
          exact ⟨hspelling, h⟩
      · cases hmodified
        exact ⟨hspelling, h⟩
    · split at hmodified
      · next hword hbase =>
        cases hmodified
        exact ⟨hunsigned _ hbase, words?_free hword h⟩
      · next hword _ =>
        cases hmodified
        exact ⟨hspelling, words?_free hword h⟩
      · cases hmodified
        exact ⟨hspelling, h⟩

theorem Family.render_free {parameters : List Text}
    (hspelling : '@' ∉ spelling) (hparameters : ∀ t ∈ parameters, '@' ∉ t) :
    '@' ∉ family.render spelling parameters := by
  have hjoin : '@' ∉ join ", ".toList parameters := join_free (by decide) hparameters
  have hlist : '@' ∉ inParentheses parameters := inParentheses_free hparameters
  have hfloat : '@' ∉ "float".toList := by decide
  unfold Family.render
  split
  · simpa using ⟨hspelling, hlist⟩
  · exact hspelling
  · simpa [hfloat] using hlist
  · simpa using ⟨hspelling, hjoin⟩
  · simpa using ⟨hspelling, hjoin⟩
  · simpa using ⟨hspelling, hjoin⟩
  · simpa using hjoin
  · simpa using ⟨hspelling, hlist⟩

theorem collected_free : ∀ (fuel : ℕ) {type : Text} {tokens : List Token}, '@' ∉ type → Free tokens →
    '@' ∉ (collected fuel type tokens).1 ∧ Free (collected fuel type tokens).2
  | 0, _, _, htype, h => ⟨htype, h⟩
  | _ + 1, _, [], htype, h => ⟨htype, h⟩
  | fuel + 1, type, token :: rest, htype, h => by
    have hrest := (forall_mem_cons.mp h).2
    have hlist : '@' ∉ "list<".toList := by decide
    rw [collected]
    split_ifs
    · exact collected_free fuel (by simpa [hlist] using htype) hrest
    · obtain ⟨hsizes, hleft⟩ := items_free valueItem_free (rest.length + 1) rest hrest
      have hjoin : '@' ∉ join ", ".toList (items valueItem (rest.length + 1) rest).1 :=
        join_free (by decide) hsizes
      exact ⟨by simpa using ⟨htype, hjoin⟩, hleft⟩
    · exact ⟨htype, h⟩

/-! ### Types -/

/-- The reader of types keeps the sign out. -/
def TypeFree (type? : List Token → Option (Text × List Token)) : Prop :=
  ∀ tokens t rest, type? tokens = some (t, rest) → Free tokens → '@' ∉ t ∧ Free rest

variable {type? : List Token → Option (Text × List Token)}

theorem typeItem_free (htype : TypeFree type?) : ItemFree (typeItem type?) := by
  intro tokens h
  unfold typeItem
  split
  · next type rest hread =>
    obtain ⟨hfree, hrest⟩ := htype tokens type rest hread h
    exact ⟨fun t ht => mem_some_iff.mp ht ▸ hfree, hrest⟩
  · exact ⟨nofun, h⟩

theorem field_free (htype : TypeFree type?) : ItemFree (field type?) := by
  intro tokens h
  have hnone : ∀ u ∈ (none : Option Text), '@' ∉ u := by simp
  unfold field
  split
  -- a name or a quoted name before a type, or a type alone
  iterate 2
    obtain ⟨hname, hrest⟩ := forall_mem_cons.mp h
    split
    · next hread =>
      obtain ⟨hfree, hleft⟩ := htype _ _ _ hread hrest
      exact ⟨fun u hu => mem_some_iff.mp hu ▸ by simpa using ⟨hname.lexeme, hfree⟩, hleft⟩
    · next hread =>
      obtain ⟨hfree, hleft⟩ := htype _ _ _ hread h
      exact ⟨fun u hu => mem_some_iff.mp hu ▸ hfree, hleft⟩
    · exact ⟨hnone, h⟩
  exact ⟨hnone, h⟩

theorem equation_free : ItemFree equation := by
  intro tokens h
  obtain ⟨hleft, hrest⟩ := valueItem_free tokens h
  unfold equation
  split
  · next left comments rest heq =>
    rw [heq] at hleft hrest
    obtain ⟨hright, hend⟩ := valueItem_free rest (forall_mem_cons.mp hrest).2
    refine ⟨fun t ht => mem_some_iff.mp ht ▸ ?_, hend⟩
    have hvalue : '@' ∉ (valueItem rest).1.getD [] := by
      cases hitem : (valueItem rest).1 with
      | none => exact not_mem_nil
      | some right => exact hright right hitem
    have hequals : '@' ∉ " = ".toList := by decide
    simpa [hequals] using ⟨hleft left rfl, hvalue⟩
  · exact ⟨hleft, hrest⟩

theorem jsonField_free (htype : TypeFree type?) : ItemFree (jsonField type?) := by
  intro tokens h
  have hequals : '@' ∉ " = ".toList := by decide
  unfold jsonField
  split
  · exact ⟨nofun, h⟩
  · next part comments rest hread =>
    obtain ⟨hname, hafter⟩ := value?_free _ _ _ _ hread h
    have hpart : '@' ∉ part.text := hname part (mem_singleton_self part)
    have hrest : Free rest := (forall_mem_cons.mp hafter).2
    split
    · next text rest' hliteral =>
      obtain ⟨htext, hleft⟩ := literal?_free hliteral hrest
      exact ⟨fun t ht => mem_some_iff.mp ht ▸ by simpa [hequals] using ⟨hpart, htext⟩, hleft⟩
    · exact ⟨fun t ht => mem_some_iff.mp ht ▸ by simpa [hequals] using hpart, hrest⟩
  · next ps rest _ hread =>
    obtain ⟨hname, hrest⟩ := value?_free _ _ _ _ hread h
    have hrender := hname.render
    split
    · next type rest' hread' =>
      obtain ⟨hfree, hleft⟩ := htype _ _ _ hread' hrest
      exact ⟨fun t ht => mem_some_iff.mp ht ▸ by simpa using ⟨hrender, hfree⟩, hleft⟩
    · exact ⟨fun t ht => mem_some_iff.mp ht ▸ hrender, hrest⟩
  · next hread => exact ⟨nofun, (value?_free _ _ _ _ hread h).2⟩

theorem Family.item_free (htype : TypeFree type?) (family : Family) : ItemFree (family.item type?) := by
  cases family with
  | json => exact jsonField_free htype
  | enumeration => exact equation_free
  | container => exact typeItem_free htype
  | array => exact typeItem_free htype
  | nullable => exact typeItem_free htype
  | record => exact field_free htype
  | plain => exact parameter_free
  | floating => exact parameter_free
  | clock => exact parameter_free
  | instant => exact parameter_free
  | interval => exact parameter_free

theorem parameters?_free (htype : TypeFree type?)
    (hread : parameters? type? family tokens = some (texts, rest)) (h : Free tokens) :
    (∀ t ∈ texts, '@' ∉ t) ∧ Free rest := by
  have hitem := Family.item_free htype family
  unfold parameters? at hread
  split at hread
  · exact closedItems?_free hitem hread (forall_mem_cons.mp h).2
  · next comments inner =>
    split_ifs at hread
    · obtain ⟨htexts, hrest⟩ := items_free hitem (inner.length + 1) inner (forall_mem_cons.mp h).2
      split at hread
      · next heq =>
        rw [heq] at htexts hrest
        cases hread
        exact ⟨htexts, (forall_mem_cons.mp hrest).2⟩
      · obtain ⟨rfl, rfl⟩ := Prod.mk.inj (Option.some.inj hread)
        exact ⟨htexts, hrest⟩
    · cases hread
      exact ⟨nofun, h⟩
  · cases hread
    exact ⟨nofun, h⟩

theorem type?_free (fuel : ℕ) : TypeFree (DataType.type? fuel) := by
  induction fuel with
  | zero =>
    intro tokens t rest hread
    cases hread
  | succ fuel htype =>
    intro tokens t rest hread h
    unfold DataType.type? at hread
    split at hread
    · next heq =>
      cases heq
      obtain ⟨base, hbase, hread⟩ := bind_eq_some_iff.mp hread
      obtain ⟨⟨parameters, after⟩, hparameters, hread⟩ := bind_eq_some_iff.mp hread
      obtain ⟨htexts, hafter⟩ := parameters?_free htype hparameters (forall_mem_cons.mp h).2
      dsimp only at hread
      split at hread
      · cases hread
        exact ⟨htexts t (mem_singleton_self t), hafter⟩
      · cases hread
      · obtain ⟨hspelling, hunsigned⟩ := base?_free hbase
        rcases hmodified : base.modified after with ⟨spelling, family, left⟩
        obtain ⟨hname, hleft⟩ := modified_free hspelling hunsigned hmodified hafter
        rw [hmodified] at hread
        have hrender : '@' ∉ family.render spelling _ := Family.render_free hname htexts
        have hcollected := collected_free (left.length + 1) hrender hleft
        rwa [Option.some.inj hread] at hcollected
    · cases hread

/-- **No sign of variables comes in** when a type is spelled anew. -/
def Mapping.Free (types : Mapping) : Prop :=
  ∀ t spelling, types t = some spelling → '@' ∉ t → '@' ∉ spelling

/-- **A text without the sign of variables is without it as a type.** -/
theorem spelling?_free : Mapping.Free spelling? := by
  intro t spelling hread h
  obtain ⟨tokens, htokens, hread⟩ := bind_eq_some_iff.mp hread
  obtain ⟨⟨type, rest⟩, htype, heq⟩ := bind_eq_some_iff.mp hread
  cases heq
  have hfree : Free (tokens.takeWhile (·.lexeme != .sign [';'])) :=
    fun token htoken => tokens?_free htokens h token ((List.takeWhile_prefix _).subset htoken)
  exact fun hin => (type?_free _ _ _ _ htype hfree).1 (sigil_mem_lower hin)

end DataType

end SqlRoutine
