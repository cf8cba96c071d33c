import SqlRoutine.Proofs.Expression.Call

/-! # Quotes and parentheses

Conversion moves text about, but never across the balance of quotes and parentheses. The **balance** of a
text is the number of its quotes and by how much the opening parentheses outnumber the closing ones. A
finder that puts a text of the same balance in the place of what it found keeps the balance of the whole
(`balance_replaceAll`), and so do the conversion of an expression and the renaming of a line
(`conversion_keeps_balance`). -/

namespace SqlRoutine.Expression

open DataType List Option Text

/-- **The balance of a text**: the number of quotes, and of opening less closing parentheses. -/
def balance (t : Text) : ℤ × ℤ := (t.count Code.quote, (t.count '(' : ℤ) - t.count ')')

theorem balance_append (t u : Text) : balance (t ++ u) = balance t + balance u := by
  unfold balance
  rw [Prod.mk_add_mk, List.count_append, List.count_append, List.count_append]
  congr 1
  push_cast
  ring

theorem balance_cons (c : Char) (t : Text) : balance (c :: t) = balance [c] + balance t :=
  balance_append [c] t

section

variable {t rest : Text} {c : Char}

theorem balance_of_all {p : Char → Bool} (hquote : p Code.quote = false) (hopen : p '(' = false)
    (hclose : p ')' = false) (h : t.all p) : balance t = 0 := by
  have hcount : ∀ c, p c = false → t.count c = 0 := fun c hc => by
    rw [count_eq_zero]
    intro hin
    rw [List.all_eq_true.mp h c hin] at hc
    cases hc
  simp [balance, hcount _ hquote, hcount _ hopen, hcount _ hclose]

theorem balance_blank (h : t.isBlank) : balance t = 0 :=
  balance_of_all rfl rfl rfl h

theorem balance_trimStart (t : Text) : balance t.trimStart = balance t := by
  have hindent : balance t.indent = 0 := balance_blank (all_takeWhile ..)
  conv_rhs => rw [← indent_append_trimStart t, balance_append, hindent, zero_add]

theorem balance_trim (t : Text) : balance t.trim = balance t := by
  have hsplit : t.trim ++ t.trimStart.rtakeWhile SqlRoutine.isBlank = t.trimStart :=
    rdropWhile_append_rtakeWhile ..
  have hblank : balance (t.trimStart.rtakeWhile SqlRoutine.isBlank) = 0 :=
    balance_blank (isBlank_eq_true_iff.mpr fun _ => mem_rtakeWhile_imp)
  rw [← balance_trimStart t, ← hsplit, balance_append, hblank, add_zero]

/-! ### What is read -/

/-- **The forms of a letter have the same balance.** -/
theorem balance_letterKey (c : Char) : balance [letterKey c] = balance [c] := by
  have hascii : ∀ n < 128, balance [(Char.ofNat n).toLower] = balance [Char.ofNat n] := by decide
  have hother : ∀ d : Char, 128 ≤ d.toNat → balance [d] = 0 := by
    intro d hd
    refine balance_of_all (p := fun c => decide (128 ≤ c.toNat)) rfl rfl rfl ?_
    simpa using hd
  by_cases hc : 128 ≤ c.toNat
  · rw [hother c hc]
    rcases letterKey_beyond hc with h | h | h | h
    · exact hother _ h
    all_goals rw [h]; rfl
  · have hkey := letterKey_ascii c.toNat (by omega)
    rw [Char.ofNat_toNat] at hkey
    rw [hkey]
    simpa using hascii c.toNat (by omega)

theorem balance_spells {k m : Text} (h : Spells k m) : balance m = balance k := by
  have hkeys : ∀ t : Text, balance (t.map letterKey) = balance t := by
    intro t
    induction t with
    | nil => rfl
    | cons c t ih => rw [map_cons, balance_cons, balance_cons c, balance_letterKey, ih]
  rw [← hkeys m, h, hkeys k]

theorem balance_keyword? {k : Text} (h : keyword? k t = some rest) :
    balance t = balance k + balance rest := by
  obtain ⟨m, hm, rfl⟩ := keyword?_eq_some_iff.mp h
  rw [balance_append, balance_spells hm]

theorem balance_sign? (h : sign? c t = some rest) : balance t = balance [c] + balance rest := by
  rw [← balance_trimStart, char?_eq_some_iff.mp h, balance_cons]

theorem balance_upTo {p : Char → Bool} (h : char? c (t.dropWhile p) = some rest) :
    balance t = balance (t.takeWhile p) + balance [c] + balance rest := by
  rw [add_assoc, ← balance_cons, ← char?_eq_some_iff.mp h, ← balance_append, takeWhile_append_dropWhile]

theorem balance_callOf? {function : Text} (h : callOf? function t = some rest) :
    balance t = balance (function ++ ['(']) + balance rest := by
  obtain ⟨left, hkeyword, hopen⟩ := bind_eq_some_iff.mp h
  rw [balance_keyword? hkeyword, balance_sign? hopen, balance_append, add_assoc]

theorem balance_argument? {piece argument : Text} (h : argument? piece = some argument) :
    balance argument = balance piece := by
  unfold argument? at h
  split at h
  · next hnil =>
    have hblank : piece.isBlank := by
      rw [← isBlank_trimStart, ← isBlank_trimEnd]
      exact congrArg Text.isBlank hnil
    obtain ⟨c, hc, rfl⟩ := map_eq_some_iff.mp h
    rw [balance_blank hblank]
    exact balance_blank (by simpa [Text.isBlank] using isBlank_eq_true_iff.mp hblank c (mem_of_getLast? hc))
  · cases h
    exact balance_trim piece

/-- An argument is followed by the sign that ends it. -/
theorem balance_argument {isStop : Char → Bool} {argument : Text}
    (h : (argument, rest) ∈ (literalBefore? c t).toList ++ (pieceBefore? isStop c t).toList) :
    balance t = balance argument + balance [c] + balance rest := by
  rcases mem_append.mp h with h | h
  · obtain ⟨⟨literal, after⟩, hliteral, h⟩ := bind_eq_some_iff.mp (mem_toList.mp h)
    obtain ⟨rest', hsign, heq⟩ := map_eq_some_iff.mp h
    cases heq
    rw [← balance_trimStart, quotedLiteral?_spec hliteral, balance_append, balance_sign? hsign, add_assoc]
  · obtain ⟨after, hsign, h⟩ := bind_eq_some_iff.mp (mem_toList.mp h)
    obtain ⟨argument', hargument, heq⟩ := map_eq_some_iff.mp h
    cases heq
    rw [balance_argument? hargument, balance_upTo hsign]

end

/-! ### What is put in its place -/

/-- What is put in the place of what is found in `t` has the same balance. -/
def KeepsBalance (find : Finder Text) (t : Text) : Prop :=
  ∀ prev s out rest, s <:+ t → find prev s = some (out, rest) → balance s = balance out + balance rest

/-- **A text keeps its balance** if all that is replaced in it does. -/
theorem balance_replaceAll {find : Finder Text} (hproper : Proper find) {t : Text}
    (h : KeepsBalance find t) : balance (t.replaceAll find) = balance t := by
  refine replaceFrom_induction hproper (P := fun _ s out => s <:+ t → balance out = balance s)
    (fun _ _ => rfl) ?_ ?_ none t suffix_rfl
  · intro prev c cs _ ih hsuffix
    rw [balance_cons, balance_cons c cs, ih ((suffix_cons c cs).trans hsuffix)]
  · intro prev m out rest _ hfind ih hsuffix
    rw [balance_append, ih ((suffix_append m rest).trans hsuffix),
      ← h prev (m ++ rest) out rest hsuffix hfind]

/-- The balance of what an ending asks for. -/
def Ending.balance : Ending → ℤ × ℤ
  | .opened => (0, 1)
  | _ => 0

theorem Ending.balance_read? {e : Ending} {t rest : Text} (h : e.read? t = some rest) :
    Expression.balance t = e.balance + Expression.balance rest := by
  cases e with
  | opened => exact balance_sign? h
  | emptyCall =>
    obtain ⟨inner, hopen, hclose⟩ := bind_eq_some_iff.mp h
    rw [balance_sign? hopen, balance_sign? hclose, ← add_assoc]
    rfl
  | wordEnd =>
    rw [Ending.read?] at h
    split_ifs at h
    rw [Option.some.inj h]
    exact (zero_add _).symm
  | anything =>
    rw [Option.some.inj h]
    exact (zero_add _).symm

theorem rules_balance : ∀ r ∈ rules, ∀ word ∈ r.words,
    balance r.replacement = balance word + r.ending.balance := by decide +kernel

theorem keepsBalance_rule {r : Rule} (hr : r ∈ rules) (t : Text) : KeepsBalance r.finder t := by
  rintro prev s out rest - hfind
  obtain ⟨hread, rfl⟩ := Rule.finder_eq_some hfind
  obtain ⟨word, hword, hread⟩ := exists_of_findSome?_eq_some hread
  obtain ⟨left, hleft, hending⟩ := bind_eq_some_iff.mp hread
  rw [rules_balance r hr word hword, balance_keyword? hleft, Ending.balance_read? hending, add_assoc]

theorem balance_applyRule {r : Rule} (hr : r ∈ rules) (t : Text) : balance (applyRule t r) = balance t :=
  balance_replaceAll (rules_plain r hr).proper (keepsBalance_rule hr t)

theorem keepsBalance_atWord {f : Text → Option (Text × Text)} {t : Text}
    (h : ∀ s out rest, s <:+ t → f s = some (out, rest) → balance s = balance out + balance rest) :
    KeepsBalance (atWord f) t := by
  intro prev s out rest hsuffix hfind
  unfold atWord at hfind
  split_ifs at hfind
  exact h s out rest hsuffix hfind

theorem keepsBalance_plusAfterQuoted (t : Text) : KeepsBalance plusAfterQuoted t := by
  rintro prev s out rest - hfind
  obtain ⟨m, rfl, rfl⟩ := plusAfterQuoted_spec hfind
  have hplus : balance ['+'] = balance ['|', '|'] := rfl
  rw [balance_cons, balance_cons _ (m ++ _), balance_append, balance_append, balance_cons '+', hplus]
  abel

theorem keepsBalance_plusBeforeQuoted (t : Text) : KeepsBalance plusBeforeQuoted t := by
  rintro prev s out rest - hfind
  obtain ⟨rest', hplus, hfind⟩ := bind_eq_some_iff.mp hfind
  obtain ⟨inner, -, hfind⟩ := bind_eq_some_iff.mp hfind
  split_ifs at hfind
  obtain ⟨rfl, rfl⟩ := Prod.mk.inj (Option.some.inj hfind)
  rw [char?_eq_some_iff.mp hplus, balance_cons]
  rfl

theorem keepsBalance_lenFinder (t : Text) : KeepsBalance lenFinder t := by
  refine keepsBalance_atWord (f := fun t => (callOf? "Len".toList t).map _) fun s out rest _ h => ?_
  obtain ⟨rest', hcall, heq⟩ := map_eq_some_iff.mp h
  obtain ⟨rfl, rfl⟩ := Prod.mk.inj heq
  rw [balance_callOf? hcall]
  rfl

theorem keepsBalance_charIndexFinder (t : Text) : KeepsBalance charIndexFinder t := by
  refine keepsBalance_atWord fun s out rest _ h => ?_
  obtain ⟨⟨⟨find, search⟩, rest'⟩, hread, heq⟩ := map_eq_some_iff.mp h
  obtain ⟨rfl, rfl⟩ := Prod.mk.inj heq
  obtain ⟨left, hcall, hread⟩ := bind_eq_some_iff.mp hread
  obtain ⟨⟨find', after⟩, hfirst, hread⟩ := exists_of_findSome?_eq_some hread
  obtain ⟨⟨search', rest''⟩, hlast, heq⟩ := map_eq_some_iff.mp hread
  cases heq
  have hleft := balance_argument (firstArguments_eq left ▸ hfirst)
  have hafter := balance_argument (lastArguments_eq after ▸ mem_of_head? hlast)
  have hopen : balance "position(".toList = balance ("CharIndex".toList ++ ['(']) := rfl
  have hcomma : balance " in ".toList = balance [','] := rfl
  rw [balance_callOf? hcall, hleft, hafter]
  simp only [balance_append _ [')'], balance_append _ search, balance_append _ " in ".toList,
    balance_append _ find, hopen, hcomma]
  abel

theorem balance_isVarchar {length : Length} {m : Text} (h : IsVarchar length m) : balance m = 0 := by
  obtain ⟨word, hword, w, b₁, b₂, l, b₃, rfl, hw, hb₁, hb₂, hb₃, hlength⟩ := h
  have hwords : ∀ word ∈ varcharWords, balance word = 0 := by decide
  have hl : balance l = 0 := by
    cases length with
    | max => exact balance_spells hlength
    | characters n => exact balance_of_all rfl rfl rfl hlength.2.1
  rw [balance_append, balance_spells hw, hwords word hword, balance_append, balance_blank hb₁, balance_cons,
    balance_append, balance_blank hb₂, balance_append, hl, balance_append, balance_blank hb₃]
  rfl

theorem keepsBalance_varcharFinder (minimum : ℤ) (t : Text) : KeepsBalance (varcharFinder minimum) t := by
  refine keepsBalance_atWord (f := fun t => (varchar? t).map _) fun s out rest _ h => ?_
  obtain ⟨⟨length, rest'⟩, hread, heq⟩ := map_eq_some_iff.mp h
  obtain ⟨rfl, rfl⟩ := Prod.mk.inj heq
  obtain ⟨m, rfl, hm⟩ := varchar?_eq_some_iff.mp hread
  rw [balance_append, readBefore_append]
  split_ifs
  · rw [balance_isVarchar hm]
    rfl
  · rfl

/-- A type in a cast is spelled anew without a change of its balance. -/
theorem balance_typeConvert {minimum : ℤ} {type : Text} {types : DataType.Mapping}
    (h : ∀ spelling, types (narrowIntegers (longVarchar minimum type.trim)) =
      some spelling → balance spelling = balance type) :
    balance (DataType.convert minimum type types) = balance type := by
  unfold DataType.convert
  dsimp only
  cases hspelling : types _ with
  | none =>
    rw [getD_none, narrowIntegers_eq]
    exact ((balance_applyRule narrowRule_mem _).trans
      (balance_replaceAll (keeps_varcharFinder minimum).proper (keepsBalance_varcharFinder minimum _))).trans
      (balance_trim type)
  | some spelling => exact h spelling hspelling

/-- The type is cast somewhere in the text. -/
def IsCast (t type : Text) : Prop := ∃ s name rest, s <:+ t ∧ convert? s = some ((type, name), rest)

theorem keepsBalance_convertFinder (p : Profile) {t : Text} (h : ∀ type, IsCast t type →
    balance (DataType.convert p.textLength type p.types) = balance type) : KeepsBalance (convertFinder p) t := by
  refine keepsBalance_atWord fun s out rest hsuffix hscan => ?_
  obtain ⟨⟨⟨type, name⟩, rest'⟩, hconvert, heq⟩ := map_eq_some_iff.mp hscan
  obtain ⟨rfl, rfl⟩ := Prod.mk.inj heq
  have htype := h type ⟨s, name, rest', hsuffix, hconvert⟩
  obtain ⟨left, hcall, hread⟩ := bind_eq_some_iff.mp hconvert
  obtain ⟨type', hargument, hread⟩ := bind_eq_some_iff.mp hread
  obtain ⟨after, hcomma, hread⟩ := bind_eq_some_iff.mp hread
  obtain ⟨named, hat, hread⟩ := bind_eq_some_iff.mp hread
  obtain ⟨⟨name', close⟩, hname, hread⟩ := bind_eq_some_iff.mp hread
  obtain ⟨rest'', hclose, heq⟩ := bind_eq_some_iff.mp hread
  cases heq
  obtain ⟨rfl, hword⟩ := name?_spec hname
  have hafter : balance after = balance ['_'] + balance (name ++ close) := by
    rw [orElse_eq_orElse, orElse_eq_or, or_eq_some_iff] at hat
    rcases hat with hat | ⟨-, hat⟩
    · exact balance_sign? (c := '@') hat
    · exact balance_sign? (c := '_') hat
  have hparentheses : balance "::".toList =
      balance ("Convert".toList ++ ['(']) + balance [','] + balance [')'] := rfl
  rw [balance_callOf? hcall, balance_upTo hcomma, hafter, balance_append name close, balance_sign? hclose,
    ← balance_argument? hargument, balance_append _ (DataType.convert _ _ _), htype,
    balance_append _ "::".toList, hparentheses, balance_cons '_' name]
  abel

theorem balance_localNames (t : Text) : balance (localNames t) = balance t := by
  unfold localNames replaceChar
  induction t with
  | nil => rfl
  | cons c t ih =>
    rw [map_cons, balance_cons, ih, balance_cons c t]
    split_ifs with hc
    · rw [hc]
      rfl
    · rfl

/-- **Conversion keeps quotes and parentheses in balance**: the conversion of an expression, as far as
types keep their balance when they are spelled anew for a cast, and the renaming of a line with the
built-in functions. -/
theorem conversion_keeps_balance (p : Profile) (t : Text) :
    ((∀ type, IsCast (renameCharIndex (renameLen (concatenation (localNames t)))) type →
        ∀ spelling, p.types (DataType.narrowIntegers
            (DataType.longVarchar p.textLength type.trim)) = some spelling →
          balance spelling = balance type) →
        balance (convert p t).value = balance t) ∧
      (p.functionNames = Profile.builtInFunctionNames → balance (literal p t) = balance t) := by
  constructor
  · intro hcast
    rw [convert_value, conversionFinders_eq]
    simp only [List.foldl_cons, List.foldl_nil]
    rw [balance_replaceAll (keeps_varcharFinder _).proper (keepsBalance_varcharFinder _ _)]
    calc
      _ = balance (renameCharIndex (renameLen (concatenation (localNames t)))) :=
        balance_replaceAll (fills_convertFinder p).proper
          (keepsBalance_convertFinder p fun type htype => balance_typeConvert (hcast type htype))
      _ = balance (renameLen (concatenation (localNames t))) :=
        balance_replaceAll keeps_charIndexFinder.proper (keepsBalance_charIndexFinder _)
      _ = balance (concatenation (localNames t)) :=
        balance_replaceAll keeps_lenFinder.proper (keepsBalance_lenFinder _)
      _ = balance ((localNames t).replaceAll plusAfterQuoted) :=
        balance_replaceAll keeps_plusBeforeQuoted.proper (keepsBalance_plusBeforeQuoted _)
      _ = balance (localNames t) :=
        balance_replaceAll keeps_plusAfterQuoted.proper (keepsBalance_plusAfterQuoted _)
      _ = balance t := balance_localNames t
  · intro hp
    rw [literal_eq hp]
    exact List.foldlRecOn (motive := fun u => balance u = balance t) rules applyRule rfl
      fun u hu r hr => (balance_applyRule hr u).trans hu

/-- A cast beside a quote and a parenthesis that are not closed. -/
theorem conversion_keeps_balance_cast :
    (∀ s ∈ (renameCharIndex (renameLen (concatenation (localNames "Convert(char(5), @x)('".toList)))).tails,
        ∀ cast ∈ convert? s, ∀ spelling ∈ DataType.spelling? (DataType.narrowIntegers
          (DataType.longVarchar 10 cast.1.1.trim)), balance spelling = balance cast.1.1) ∧
      balance (convert .standard "Convert(char(5), @x)('".toList).value = (1, 1) := by
  have hcasts : ∀ s ∈ (renameCharIndex (renameLen (concatenation (localNames
        "Convert(char(5), @x)('".toList)))).tails,
      ∀ cast ∈ convert? s, ∀ spelling ∈ DataType.spelling? (DataType.narrowIntegers
        (DataType.longVarchar 10 cast.1.1.trim)), balance spelling = balance cast.1.1 := by decide
  refine ⟨hcasts, (conversion_keeps_balance .standard _).1 ?_⟩
  rintro type ⟨s, name, rest, hs, hconvert⟩ spelling hspelling
  exact hcasts s ((List.mem_tails _ _).mpr hs) _ hconvert spelling hspelling

end SqlRoutine.Expression
