import SqlRoutine.Proofs.Body.Declaration
import SqlRoutine.Proofs.Body.Terminator.Writing

/-! # Declarations with a semicolon after their code

The semicolon is dropped from the last type or value of a `Declare` line, so the variables are the same
(`plainVariable?_terminated`), unless there is nothing it could be dropped from: the line ends with a
comma, or its last item is a name without a type. -/

namespace SqlRoutine.Body

open Code Expression List Option Text

variable {c : Char} {starts : List Text} {item r s t w w' : Text} {found : Text × Option Text}
  {v : Variable}

/-! ### Types and values -/

section

variable {t w : Text} (ht : endsInCode t) (hw : w.isBlank)
include ht hw

theorem dropStatementEnd_of_endsInCode : dropStatementEnd (t ++ w) = t := by
  have hempty : List.isEmpty t = false := isEmpty_eq_false_iff.mpr (ne_nil_of_endsInCode ht)
  have hlast : t.getLast? ≠ some ';' := by
    obtain ⟨x, c, rfl, hc⟩ := endsInCode_iff.mp ht
    rw [getLast?_concat]
    rintro ⟨⟩
    cases hc
  unfold dropStatementEnd
  rw [trimEnd_of_endsInCode ht hw]
  dsimp only
  split
  · next heq => exact absurd heq hlast
  · rw [hempty, if_neg Bool.false_ne_true]

theorem dropStatementEnd_terminated : dropStatementEnd (t ++ ';' :: w) = t := by
  have hempty : List.isEmpty t = false := isEmpty_eq_false_iff.mpr (ne_nil_of_endsInCode ht)
  have htrim : trimEnd t = t := by
    have h := trimEnd_of_endsInCode ht (b := []) rfl
    rwa [append_nil] at h
  unfold dropStatementEnd
  rw [trimEnd_append_cons _ rfl, trimEnd_of_isBlank hw]
  simp only [getLast?_concat, dropLast_concat, htrim, hempty, Bool.false_eq_true, if_false]

end

/-- **The value with a semicolon after it** is the same, but a blank that stands for a value gives way to
the semicolon. -/
inductive ValueGains (w : Text) : Option Text → Option Text → Prop where
  | same (value : Option Text) : ValueGains w value value
  | noValue {c : Char} (hc : isBlank c) (hw : w ≠ []) : ValueGains w (some [c]) (some [';'])

theorem value?_terminated (hr : r = [] ∨ endsInCode r) (hw : w.isBlank)
    (hw' : w'.isBlank) (hvalue : ¬(r = [] ∧ w = [])) :
    ∃ v v', value? (r ++ w) = some v ∧ value? (r ++ ';' :: w') = some v' ∧
      ValueGains w (some v) (some v') := by
  have hvisible : ∀ r : Text, Text.isBlank (r ++ ';' :: w') = false := fun r =>
    isBlank_eq_false_iff.mpr ⟨';', by simp, rfl⟩
  rcases hr with rfl | hr
  · have hne : w ≠ [] := fun hnil => hvalue ⟨rfl, hnil⟩
    have hmem := getLast_mem hne
    refine ⟨[w.getLast hne], [';'], ?_, ?_, .noValue (isBlank_eq_true_iff.mp hw _ hmem) hne⟩
    · rw [nil_append, value?, if_pos hw, getLast?_eq_some_getLast hne]
      rfl
    · have htrim : trimEnd (';' :: w') = [';'] := by
        rw [← nil_append (';' :: w'), trimEnd_append_cons _ rfl, trimEnd_of_isBlank hw',
          nil_append]
      have hend : dropStatementEnd (';' :: w') = [';'] := by
        rw [dropStatementEnd, htrim]
        rfl
      rw [value?, hvisible, if_neg Bool.false_ne_true, nil_append, trimStart_of_head rfl, hend]
  · have hstart := fun z => (indent_and_trimStart_append (endsInCode_isBlank hr) z).2
    have hcode := endsInCode_trimStart hr
    refine ⟨r.trimStart, r.trimStart, ?_, ?_, .same _⟩
    · rw [value?, isBlank_append, endsInCode_isBlank hr, Bool.false_and, if_neg Bool.false_ne_true,
        hstart, dropStatementEnd_of_endsInCode hcode hw]
    · rw [value?, hvisible, if_neg Bool.false_ne_true, hstart, dropStatementEnd_terminated hcode hw']

/-- What is read of a type and a value with the semicolon after it. -/
structure TypeGains (w : Text) (a b : Text × Option Text) : Prop where
  type : a.1 = b.1
  value : ValueGains w a.2 b.2
  present : a.1.isBlank = false ∨ a.2 ≠ none

theorem typeAndValue?_noValue (hs : s ≠ []) (hsign : '=' ∉ s) :
    typeAndValue? s = some (dropStatementEnd s, none) := by
  have hall : ∀ c ∈ s, (c != '=') := fun c hc => bne_iff_ne.mpr fun heq => hsign (heq ▸ hc)
  have hempty : List.isEmpty s = false := isEmpty_eq_false_iff.mpr hs
  rw [typeAndValue?, takeWhile_eq_self_iff.mpr hall, dropWhile_eq_nil_iff.mpr hall]
  simp only [hempty, Bool.false_eq_true, if_false]

theorem not_mem_of_isBlank (hw : w.isBlank) : '=' ∉ w := fun hin =>
  nomatch isBlank_eq_true_iff.mp hw _ hin

theorem typeAndValue?_terminated (hs : endsInCode s) (hw : w.isBlank)
    (hw' : w'.isBlank) (hvalue : ¬(s.dropWhile (· != '=') = ['='] ∧ w = [])) :
    Option.Rel (TypeGains w) (typeAndValue? (s ++ w)) (typeAndValue? (s ++ ';' :: w')) := by
  by_cases hsign : s.dropWhile (· != '=') = []
  · -- there is no value, and the type goes up to the end
    have hread : ∀ z : Text, '=' ∉ z → typeAndValue? (s ++ z) = some (dropStatementEnd (s ++ z), none) := by
      intro z hz
      refine typeAndValue?_noValue (by simp [ne_nil_of_endsInCode hs]) fun hin => ?_
      rcases mem_append.mp hin with hin | hin
      · exact absurd (dropWhile_eq_nil_iff.mp hsign _ hin) (by decide)
      · exact hz hin
    rw [hread w (not_mem_of_isBlank hw), hread (';' :: w') (by simpa using not_mem_of_isBlank hw'),
      dropStatementEnd_of_endsInCode hs hw, dropStatementEnd_terminated hs hw']
    exact .some ⟨rfl, .same _, .inl (endsInCode_isBlank hs)⟩
  · obtain ⟨c, r, hr⟩ := exists_cons_of_ne_nil hsign
    have hread : ∀ z : Text, typeAndValue? (s ++ z) =
        if (s.takeWhile (· != '=')).isEmpty then none
        else (value? (r ++ z)).map fun value => (trimEndToOne (s.takeWhile (· != '=')), some value) := by
      intro z
      rw [typeAndValue?, (run_within hsign z).1, (run_within hsign z).2, hr]
      rfl
    rw [hread, hread]
    split_ifs
    · exact .none
    · have hsuffix : r <:+ s := (suffix_cons c r).trans (hr ▸ dropWhile_suffix _)
      have hcode : r = [] ∨ endsInCode r := by
        by_cases hnil : r = []
        · exact .inl hnil
        · exact .inr (endsInCode_suffix hs hsuffix hnil)
      have hc : c = '=' := by
        have hhead := head?_dropWhile_not (· != '=') s
        rw [hr] at hhead
        simpa using hhead
      obtain ⟨v, v', hv, hv', hgains⟩ := value?_terminated hcode hw hw' fun ⟨hnil, hnone⟩ =>
        hvalue ⟨by rw [hr, hc, hnil], hnone⟩
      rw [hv, hv']
      exact .some ⟨rfl, hgains, .inr nofun⟩

/-! ### Where the type starts -/

theorem isTrailer_of_isBlank (hw : w.isBlank) : isTrailer w := by
  rw [← append_nil w, isTrailer_append hw]
  rfl

theorem afterBlanks_append (h : t.isBlank = false) (z : Text) :
    afterBlanks (t ++ z) = (afterBlanks t).map (· ++ z) := by
  obtain ⟨hindent, hstart⟩ := indent_and_trimStart_append h z
  unfold afterBlanks
  rw [hindent, hstart]
  split
  · rfl
  · rfl
  · rw [map_cons, map_cons, map_nil, append_assoc]

theorem exists_of_mem_afterBlanks (h : s ∈ afterBlanks t) :
    ∃ b : Text, b.isBlank ∧ t = b ++ s := by
  have hsplit : t.indent ++ t.trimStart = t := takeWhile_append_dropWhile
  have hblank : Text.isBlank t.indent := all_takeWhile ..
  unfold afterBlanks at h
  split at h
  · cases h
  · obtain rfl := mem_singleton.mp h
    exact ⟨_, hblank, hsplit.symm⟩
  · next hnil _ =>
    rcases mem_cons.mp h with rfl | h
    · exact ⟨_, hblank, hsplit.symm⟩
    · obtain rfl := mem_singleton.mp h
      have hlast := dropLast_append_getLast hnil
      refine ⟨t.indent.dropLast, ?_, ?_⟩
      · rw [← hlast, isBlank_append, Bool.and_eq_true] at hblank
        exact hblank.1
      · rw [getLast?_eq_some_getLast hnil, toList_some, ← append_assoc, hlast, hsplit]

/-- The places where a type can start, after one run of blanks. -/
def startsAfter (start : Text) : List Text :=
  ((keyword? "As".toList start).map afterBlanks).getD [] ++ [start]

theorem typeStarts_eq (t : Text) : typeStarts t = (afterBlanks t).flatMap startsAfter := rfl

/-- A start in the code, with the same value after it. -/
def IsStart (t s : Text) : Prop :=
  endsInCode s ∧ s.dropWhile (· != '=') = t.dropWhile (· != '=')

theorem isStart_of_append {b : Text} (h : endsInCode (b ++ s)) (hs : s.isBlank = false)
    (hb : '=' ∉ b) : IsStart (b ++ s) s := by
  refine ⟨endsInCode_suffix h (suffix_append ..) ?_, ?_⟩
  · rintro rfl
    cases hs
  · rw [dropWhile_append_of_pos]
    intro c hc
    exact bne_iff_ne.mpr fun heq => hb (heq ▸ hc)

theorem isStart_of_mem_afterBlanks (ht : endsInCode t) (h : s ∈ afterBlanks t) :
    IsStart t s := by
  obtain ⟨b, hb, rfl⟩ := exists_of_mem_afterBlanks h
  have hvisible := endsInCode_isBlank ht
  rw [isBlank_append, hb, Bool.true_and] at hvisible
  exact isStart_of_append ht hvisible fun hin => nomatch isBlank_eq_true_iff.mp hb _ hin

theorem IsStart.trans (h : IsStart t s) (hr : IsStart s r) : IsStart t r :=
  ⟨hr.1, hr.2.trans h.2⟩

theorem not_mem_of_as {m : Text} (hm : Spells "As".toList m) : '=' ∉ m := by
  intro hin
  have hkey : letterKey '=' ∈ m.map letterKey := List.mem_map_of_mem hin
  rw [hm] at hkey
  exact absurd hkey (by decide)

theorem isStart_of_as {rest : Text} (ht : endsInCode t)
    (h : keyword? "As".toList t = some rest) (hrest : rest ≠ []) : IsStart t rest := by
  obtain ⟨m, hm, rfl⟩ := keyword?_eq_some_iff.mp h
  exact isStart_of_append ht
    (endsInCode_isBlank (endsInCode_suffix ht (suffix_append ..) hrest)) (not_mem_of_as hm)

theorem startsAfter_append (ht : endsInCode t) :
    (∃ starts : List Text, (∀ s ∈ starts, IsStart t s) ∧
        ∀ z, isTrailer z → startsAfter (t ++ z) = starts.map (· ++ z)) ∨
      keyword? "As".toList t = some [] ∧
        ∀ z, isTrailer z → startsAfter (t ++ z) = afterBlanks z ++ [t ++ z] := by
  have hopening : Opening (keyword? "As".toList) := opening_keyword? (by decide)
  have hread : ∀ z, isTrailer z → startsAfter (t ++ z) =
      ((keyword? "As".toList t).map fun rest => afterBlanks (rest ++ z)).getD [] ++ [t ++ z] := by
    intro z hz
    rw [startsAfter, hopening.stops hz, Option.map_map]
    rfl
  cases hkeyword : keyword? "As".toList t with
  | none =>
    rw [hkeyword] at hread
    exact .inl ⟨[t], by simpa using ⟨ht, rfl⟩, hread⟩
  | some rest =>
    rw [hkeyword] at hread
    by_cases hrest : rest = []
    · subst hrest
      exact .inr ⟨rfl, hread⟩
    · have hcode := endsInCode_suffix ht (hopening.suffix hkeyword) hrest
      refine .inl ⟨afterBlanks rest ++ [t], ?_, fun z hz => ?_⟩
      · intro s hs
        rcases mem_append.mp hs with hs | hs
        · exact (isStart_of_as ht hkeyword hrest).trans (isStart_of_mem_afterBlanks hcode hs)
        · obtain rfl := mem_singleton.mp hs
          exact ⟨ht, rfl⟩
      · rw [hread z hz, map_some, getD_some,
          afterBlanks_append (endsInCode_isBlank hcode), map_append]
        rfl

theorem afterBlanks_cases (t : Text) : afterBlanks t = [] ∨ afterBlanks t = [t.trimStart] ∨
    ∃ c, isBlank c ∧ afterBlanks t = [t.trimStart, c :: t.trimStart] := by
  have hblank : Text.isBlank t.indent := all_takeWhile ..
  unfold afterBlanks
  split
  · exact .inl rfl
  · exact .inr (.inl rfl)
  · next hnil _ =>
    refine .inr (.inr ⟨t.indent.getLast hnil, ?_, ?_⟩)
    · exact isBlank_eq_true_iff.mp hblank _ (getLast_mem hnil)
    · rw [getLast?_eq_some_getLast hnil, toList_some, singleton_append]

theorem keyword?_as_blank (hc : isBlank c) (t : Text) :
    keyword? "As".toList (c :: t) = none := by
  have hstop : isStop c := by rw [isStop, hc, Bool.or_true]
  change keyword? ['A', 's'] (c :: t) = none
  rw [keyword?, sameLetter_of_isParting (by decide) (isParting_of_isStop hstop), if_neg Bool.false_ne_true]

theorem startsAfter_blank (hc : isBlank c) (t : Text) : startsAfter (c :: t) = [c :: t] := by
  rw [startsAfter, keyword?_as_blank hc]
  rfl

/-- **The types of a declaration start in the code**, but one that ends with `As` has a type of blanks
too. -/
theorem typeStarts_append (ht : endsInCode t) :
    ∃ starts : List Text, (∀ s ∈ starts, IsStart t s) ∧
      ((∀ z, isTrailer z → typeStarts (t ++ z) = starts.map (· ++ z)) ∨
        (∃ s ∈ starts.head?, keyword? "As".toList s = some []) ∧
          ∀ z, isTrailer z → typeStarts (t ++ z) = afterBlanks z ++ starts.map (· ++ z)) := by
  have hread : ∀ z, typeStarts (t ++ z) = ((afterBlanks t).map (· ++ z)).flatMap startsAfter := fun z => by
    rw [typeStarts_eq, afterBlanks_append (endsInCode_isBlank ht)]
  have hstart := fun s => isStart_of_mem_afterBlanks (s := s) ht
  have hsplit : (∀ z, typeStarts (t ++ z) = []) ∨ IsStart t t.trimStart ∧
      ∃ more : List Text, (∀ s ∈ more, IsStart t s) ∧
        ∀ z, typeStarts (t ++ z) = startsAfter (t.trimStart ++ z) ++ more.map (· ++ z) := by
    rcases afterBlanks_cases t with hnil | hone | ⟨c, hc, htwo⟩
    · rw [hnil] at hread
      exact .inl hread
    · rw [hone] at hread hstart
      refine .inr ⟨hstart _ mem_cons_self, [], nofun, fun z => ?_⟩
      rw [hread, map_singleton, flatMap_cons, flatMap_nil, map_nil]
    · rw [htwo] at hread hstart
      refine .inr ⟨hstart _ mem_cons_self, [c :: t.trimStart],
        fun s hs => hstart s (mem_cons_of_mem _ hs), fun z => ?_⟩
      rw [hread, map_cons, map_singleton, flatMap_cons, flatMap_cons, flatMap_nil,
        append_nil, cons_append, startsAfter_blank hc]
  rcases hsplit with hnil | ⟨htrim, more, hmore, hread⟩
  · exact ⟨[], nofun, .inl fun z _ => hnil z⟩
  · rcases startsAfter_append htrim.1 with ⟨starts, hstarts, hmap⟩ | ⟨has, hmap⟩
    · refine ⟨starts ++ more, fun s hs => ?_, .inl fun z hz => by rw [hread, hmap z hz, map_append]⟩
      rcases mem_append.mp hs with hs | hs
      · exact htrim.trans (hstarts s hs)
      · exact hmore s hs
    · refine ⟨t.trimStart :: more, fun s hs => ?_, .inr ⟨⟨_, rfl, has⟩, fun z hz => ?_⟩⟩
      · rcases mem_cons.mp hs with rfl | hs
        · exact htrim
        · exact hmore s hs
      · rw [hread, hmap z hz, append_assoc]
        rfl

/-! ### Declared variables -/

theorem isBlank_dropStatementEnd (hw : w.isBlank) : (dropStatementEnd w).isBlank := by
  rw [dropStatementEnd, trimEnd_of_isBlank hw]
  exact isBlank_eq_true_iff.mpr fun c hc =>
    isBlank_eq_true_iff.mp hw c (mem_of_mem_take hc)

theorem findSome?_blanks (hw : w.isBlank)
    (h : (afterBlanks w).findSome? typeAndValue? = some found) :
    found.1.isBlank ∧ found.2 = none := by
  obtain ⟨s, hs, hread⟩ := exists_of_findSome?_eq_some h
  obtain ⟨b, -, rfl⟩ := exists_of_mem_afterBlanks hs
  rw [isBlank_append, Bool.and_eq_true] at hw
  have hne : s ≠ [] := by
    rintro rfl
    cases hread
  rw [typeAndValue?_noValue hne (not_mem_of_isBlank hw.2)] at hread
  obtain rfl := some_inj.mp hread
  exact ⟨isBlank_dropStatementEnd hw.2, rfl⟩

theorem findSome?_terminated (hw : w.isBlank) (hw' : w'.isBlank)
    (hvalue : ¬(t.dropWhile (· != '=') = ['='] ∧ w = [])) (hstarts : ∀ s ∈ starts, IsStart t s) :
    Option.Rel (TypeGains w) ((starts.map (· ++ w)).findSome? typeAndValue?)
      ((starts.map (· ++ ';' :: w')).findSome? typeAndValue?) := by
  induction starts with
  | nil => exact .none
  | cons s starts ih =>
    have hs := hstarts s mem_cons_self
    have hrel := typeAndValue?_terminated hs.1 hw hw' (hs.2 ▸ hvalue)
    rw [map_cons, map_cons, findSome?_cons, findSome?_cons]
    generalize typeAndValue? (s ++ w) = a, typeAndValue? (s ++ ';' :: w') = b at hrel
    cases hrel with
    | some hgains => exact .some hgains
    | none => exact ih fun s hs => hstarts s (mem_cons_of_mem _ hs)

theorem findSome?_noValue (ht : t.dropWhile (· != '=') = ['='])
    (hstarts : ∀ s ∈ starts, IsStart t s) : starts.findSome? typeAndValue? = none := by
  refine findSome?_eq_none_iff.mpr fun s hs => ?_
  rw [typeAndValue?, (hstarts s hs).2, ht]
  simp [value?, Text.isBlank]

/-- **A declared variable with a semicolon after it.** -/
inductive Variable.Gains (item w : Text) (v : Variable) : Option Variable → Prop where
  | same (value : Option Text) (hvalue : ValueGains w v.value value)
      (hpresent : v.type.isBlank = false ∨ v.value ≠ none) : Gains item w v (some { v with value })
  | nameOnly (hname : item = '@' :: v.name) (htype : v.type.isBlank) (hvalue : v.value = none) :
      Gains item w v none
  | typed (type : Text) (hname : item ≠ '@' :: v.name) (htype : v.type.isBlank)
      (hvalue : v.value = none) (hspells : keyword? "As".toList type = some []) : Gains item w v (some { v with type })

theorem typeStarts_of_isBlank (hw : w.isBlank) : typeStarts w = afterBlanks w := by
  have hone : ∀ s ∈ afterBlanks w, startsAfter s = [s] := by
    intro s hs
    obtain ⟨b, -, rfl⟩ := exists_of_mem_afterBlanks hs
    rw [isBlank_append, Bool.and_eq_true] at hw
    cases s with
    | nil => rfl
    | cons c s => exact startsAfter_blank (isBlank_eq_true_iff.mp hw.2 c mem_cons_self) s
  rw [typeStarts_eq, flatMap_congr hone, flatMap_singleton']

theorem declared?_eq (item : Text) : declared? item = (atName? item.trimStart).bind fun found =>
    ((typeStarts found.2).findSome? typeAndValue?).map fun read => ⟨found.1, read.1, read.2⟩ := by
  unfold declared?
  simp only [map_eq_bind]
  rfl

theorem findSome?_typeStarts (ht : endsInCode t) (hw : w.isBlank)
    (hw' : w'.isBlank) (h : (typeStarts (t ++ w)).findSome? typeAndValue? = some found) :
    (∃ found', (typeStarts (t ++ ';' :: w')).findSome? typeAndValue? = some found' ∧
        TypeGains w found found') ∨
      found.1.isBlank ∧ found.2 = none ∧ ∃ type, keyword? "As".toList type = some [] ∧
        (typeStarts (t ++ ';' :: w')).findSome? typeAndValue? = some (type, none) := by
  have htrailer := isTrailer_of_isBlank hw
  obtain ⟨starts, hstarts, hread⟩ := typeStarts_append ht
  have hgains : ∀ found, (starts.map (· ++ w)).findSome? typeAndValue? = some found →
      ∃ found', (starts.map (· ++ ';' :: w')).findSome? typeAndValue? = some found' ∧
        TypeGains w found found' := by
    intro found hfound
    have hvalue : ¬(t.dropWhile (· != '=') = ['='] ∧ w = []) := by
      rintro ⟨hsign, rfl⟩
      rw [map_congr_left (fun s _ => append_nil s), List.map_id', findSome?_noValue hsign hstarts]
        at hfound
      cases hfound
    have hrel := findSome?_terminated hw hw' hvalue hstarts
    rw [hfound] at hrel
    generalize (starts.map (· ++ ';' :: w')).findSome? typeAndValue? = read at hrel
    cases hrel with
    | some hgains => exact ⟨_, rfl, hgains⟩
  rcases hread with hread | ⟨⟨s, hs, has⟩, hread⟩
  · rw [hread w htrailer] at h
    rw [hread (';' :: w') rfl]
    exact .inl (hgains found h)
  · have hnone : afterBlanks (';' :: w') = [] := rfl
    rw [hread w htrailer, findSome?_append] at h
    rw [hread (';' :: w') rfl, hnone, nil_append]
    cases hblanks : (afterBlanks w).findSome? typeAndValue? with
    | none =>
      rw [hblanks, none_or] at h
      exact .inl (hgains found h)
    | some read =>
      rw [hblanks, some_or] at h
      obtain rfl := some_inj.mp h
      obtain ⟨htype, hvalue⟩ := findSome?_blanks hw hblanks
      obtain ⟨more, rfl⟩ := head?_eq_some_iff.mp hs
      obtain ⟨m, hm, rfl⟩ := keyword?_eq_some_iff.mp has
      have hcode := (hstarts _ mem_cons_self).1
      refine .inr ⟨htype, hvalue, m ++ [], has, ?_⟩
      have hsign : '=' ∉ m ++ [] ++ ';' :: w' := by
        simpa using ⟨not_mem_of_as hm, not_mem_of_isBlank hw'⟩
      rw [map_cons, findSome?_cons, typeAndValue?_noValue (by simp) hsign,
        dropStatementEnd_terminated hcode hw']

theorem declared?_terminated (hitem : endsInCode item)
    (hw : w.isBlank) (hw' : w'.isBlank) (h : declared? (item ++ w) = some v) :
    v.Gains item.trimStart w (declared? (item ++ ';' :: w')) := by
  have hread : ∀ z, isTrailer z → declared? (item ++ z) =
      (atName? item.trimStart).bind fun found =>
        ((typeStarts (found.2 ++ z)).findSome? typeAndValue?).map fun read => ⟨found.1, read.1, read.2⟩ := by
    intro z hz
    rw [declared?_eq, (indent_and_trimStart_append (endsInCode_isBlank hitem) z).2,
      openingWith_atName?.stops hz, bind_map]
    rfl
  have htrailer := isTrailer_of_isBlank hw
  rw [hread w htrailer] at h
  rw [hread (';' :: w') rfl]
  obtain ⟨⟨name, rest⟩, hname, h⟩ := bind_eq_some_iff.mp h
  obtain ⟨found, hfound, rfl⟩ := map_eq_some_iff.mp h
  rw [hname, bind_some]
  dsimp only at hfound ⊢
  by_cases hrest : rest = []
  · -- the line ends with the name
    subst hrest
    have hspec := (atName?_spec hname).1
    rw [nil_append, typeStarts_of_isBlank hw] at hfound
    obtain ⟨htype, hvalue⟩ := findSome?_blanks hw hfound
    exact .nameOnly (by rwa [append_nil] at hspec) htype hvalue
  · have hcode : endsInCode rest :=
      endsInCode_suffix hitem ((openingWith_atName?.suffix hname).trans (dropWhile_suffix _))
        hrest
    rcases findSome?_typeStarts hcode hw hw' hfound with
      ⟨found', hread', htype, hvalue, hpresent⟩ | ⟨htype, hvalue, type, has, hread'⟩
    · rw [hread', map_some, ← htype]
      exact .same found'.2 hvalue hpresent
    · obtain ⟨blank, value⟩ := found
      obtain rfl : value = none := hvalue
      rw [hread', map_some]
      refine .typed type ?_ htype rfl has
      rw [(atName?_spec hname).1]
      simpa using hrest

/-- **The item without a table.** -/
theorem plainVariable?_terminated (hitem : endsInCode item)
    (hw : w.isBlank) (hw' : w'.isBlank) (h : plainVariable? (item ++ w) = some v) :
    v.Gains item.trimStart w (plainVariable? (item ++ ';' :: w')) := by
  obtain ⟨hread, htable⟩ := filter_eq_some_iff.mp h
  have hgains := declared?_terminated hitem hw hw' hread
  unfold plainVariable?
  generalize declared? (item ++ ';' :: w') = read at hgains
  cases hgains with
  | same value hvalue hpresent =>
    have hsame : ({ v with value } : Variable).isTable = v.isTable := rfl
    rw [filter_some, hsame, if_pos htable]
    exact .same value hvalue hpresent
  | nameOnly hname htype hvalue => exact .nameOnly hname htype hvalue
  | typed type hname htype hvalue hspells =>
    have hnoTable : word? "table".toList type = none := by
      rw [word?, keyword?_of_differ (by decide) hspells, bind_none]
    rw [filter_some, Variable.isTable, hnoTable]
    exact .typed type hname htype hvalue hspells

/-! ### Lines -/

/-- The list of variables of a `Declare` line, with the comment after it. -/
def declareList? (line : Text) : Option Text :=
  (keyword? "Declare".toList line.trimStart).bind fun rest => (blanks? rest).bind fun list =>
    (char? '@' list).bind fun _ => restOfLine? list

theorem declareLine?_eq (line : Text) : declareLine? line = (declareList? line).map fun list =>
    ⟨line.indent, (splitCommas (splitComment list).1).filter fun item => !item.isBlank,
      (splitComment list).2⟩ := by
  unfold declareLine? declareList?
  simp only [map_eq_bind, bind_assoc]
  rfl

/-- The piece after the last comma. -/
def lastPiece? (line : Text) : Option Text :=
  (declareList? line).bind fun list => (splitCommas (splitComment list).1).getLast?

variable {l : CodeLine}

theorem declareList?_terminated {list : Text} (h : declareList? l.source = some list) :
    ∃ y, '@' :: y <:+ l.start ∧ list = '@' :: y ++ l.tail ∧
      declareList? l.terminated = some ('@' :: y ++ ';' :: l.tail) := by
  have hopening : Opening (keyword? "Declare".toList) := opening_keyword? (by decide)
  have hfails : FailsAtTrailer fun list : Text =>
      (char? '@' list).bind fun _ => restOfLine? list := by
    intro t ht
    cases t with
    | nil => rfl
    | cons c t =>
      have hc : c ≠ '@' := by
        rintro rfl
        cases ht
      simp only [char?, hc, if_false, bind_none]
  unfold declareList? at h ⊢
  rw [l.trimStart_source, hopening.stops l.isTrailer_tail] at h
  rw [l.trimStart_terminated, hopening.stops l.isTrailer_terminated]
  cases hstart : keyword? "Declare".toList l.start with
  | none =>
    rw [hstart] at h
    cases h
  | some r =>
    have hr : r <:+ l.start := hopening.suffix hstart
    rw [hstart, map_some, bind_some] at h
    rcases blanks?_bind_append hfails r with hnone | ⟨u, hu, hvisible, hu'⟩
    · rw [hnone _ l.isTrailer_tail] at h
      cases h
    rw [hu', bind_some] at h
    rw [map_some, bind_some, hu', bind_some]
    obtain ⟨rest, hsign, hline⟩ := bind_eq_some_iff.mp h
    have hu := hu.trans hr
    cases u with
    | nil => cases hvisible
    | cons c y =>
      obtain ⟨rfl, -⟩ : c = '@' ∧ y ++ l.tail = rest := by
        simpa using char?_eq_some_iff.mp hsign
      have hat : ∀ v : Text, trimStart ('@' :: v) = '@' :: v := fun _ => trimStart_of_head rfl
      have hsource := l.restOfLine?_source hu
      have hterminated := l.restOfLine?_terminated hu
      rw [cons_append, hat] at hsource hterminated
      refine ⟨y, hu, ?_, ?_⟩
      · exact Option.some.inj (hline.symm.trans hsource)
      · rw [cons_append, char?_cons_self, bind_some, hterminated]

/-- **A `Declare` line with a semicolon after its code** has the same items but the last. -/
theorem declareLine?_terminated {d : DeclareLine} (h : declareLine? l.source = some d)
    (hcomment : d.comment = l.comment) :
    ∃ (init : List Text) (last w w' : Text), (last = [] ∨ endsInCode last) ∧
      w.isBlank ∧ w'.isBlank ∧ (w ≠ [] → l.comment = []) ∧
      lastPiece? l.source = some (last ++ w) ∧
      d.items = (init ++ [last ++ w]).filter (fun item => !Text.isBlank item) ∧
      declareLine? l.terminated =
        some { d with items := (init ++ [last ++ ';' :: w']).filter fun item => !Text.isBlank item } := by
  rw [declareLine?_eq] at h
  obtain ⟨list, hlist, rfl⟩ := map_eq_some_iff.mp h
  obtain ⟨y, hy, rfl, hlist'⟩ := declareList?_terminated hlist
  have hat : ∀ v : Text, trimStart ('@' :: v) = '@' :: v := fun _ => trimStart_of_head rfl
  obtain ⟨w, w', hw, hw', hnone, hsplit, hsplit'⟩ := l.splitComment_rest hy (by rwa [cons_append, hat])
  rw [cons_append, hat, ← cons_append, hat] at hsplit hsplit'
  obtain ⟨init, last, hsuffix, -, hpieces⟩ := splitCommasFrom_last ('@' :: y) {}
  have hcomma : ∀ {w : Text}, w.isBlank → ',' ∉ w := fun hw hin =>
    nomatch isBlank_eq_true_iff.mp hw _ hin
  have hread : splitCommas ('@' :: y ++ w) = init ++ [last ++ w] := hpieces w (hcomma hw)
  have hread' : splitCommas ('@' :: y ++ ';' :: w') = init ++ [last ++ ';' :: w'] :=
    hpieces _ (by simpa using hcomma hw')
  refine ⟨init, last, w, w', l.endsInCode_of_suffix (hsuffix.trans hy), hw, hw', hnone, ?_, ?_, ?_⟩
  · rw [lastPiece?, hlist, bind_some, hsplit, hread, getLast?_concat]
  · rw [hsplit, hread]
  · rw [declareLine?_eq, hlist', map_some, hsplit', hread', l.indent_source, l.indent_terminated,
      hcomment]

/-! ### Writing -/

/-- **The list takes up a semicolon**: its last item has a type or a value, or declares the variable for
error codes with at least the `As` of a type. -/
def listAbsorbs (line : Text) : Bool :=
  (lastPiece? line).any fun item => (declared? item).any fun v =>
    !v.type.isBlank || v.value.isSome || isErrorVariable v.name && item.trim != '@' :: v.name

variable {p : Profile} {indent comment w : Text} {before : List Variable} {v : Variable}

/-- The variable for error codes is left out. -/
theorem declareVariables_error (h : isErrorVariable v.name) :
    (declareVariables p indent comment (before ++ [v])).value =
      (declareVariables p indent comment before).value := by
  have hfilter : (before ++ [v]).filter Variable.isKept = before.filter Variable.isKept := by
    rw [filter_append, filter_singleton, Variable.isKept, h]
    exact append_nil _
  rw [declareVariables_value, declareVariables_value, hfilter]

theorem declareVariables_kept (h : isErrorVariable v.name = false) :
    (declareVariables p indent comment (before ++ [v])).value =
      ⟨(before.filter Variable.isKept).map (Variable.entry p) ++ [v.entry p],
        commentFirst comment ((before.filter Variable.isKept).filterMap (Variable.assignment? p indent) ++
          (v.assignment? p indent).toList)⟩ := by
  have hfilter : (before ++ [v]).filter Variable.isKept = before.filter Variable.isKept ++ [v] := by
    rw [filter_append, filter_singleton, Variable.isKept, h]
    rfl
  rw [declareVariables_value, hfilter, map_append, filterMap_append, map_singleton]
  cases hassignment : v.assignment? p indent <;> simp [hassignment]

theorem tidy_assignment_noValue {name : Text} (hc : isBlank c) :
    tidy (indent ++ '_' :: name ++ " := ".toList ++ (convert p (trim [';'])).value ++ [';']) =
      tidy (indent ++ '_' :: name ++ " := ".toList ++ (convert p (trim [c])).value ++ [';']) := by
  have hblank : trim [c] = [] := by
    rw [trim, trimStart_of_isBlank (isBlank_eq_true_iff.mpr (by simpa using hc))]
    rfl
  have hsemicolon : trim [';'] = [';'] := rfl
  rw [hblank, hsemicolon, convert_nil, convert_terminator, append_nil, append_assoc _ [';']]
  exact tidy_terminators (u := []) rfl _

theorem declareVariables_same {value : Option Text} (h : ValueGains w v.value value)
    (hnone : w ≠ [] → comment = []) :
    let d := (declareVariables p indent comment (before ++ [v])).value
    let d' := (declareVariables p indent comment (before ++ [{ v with value }])).value
    d'.locals = d.locals ∧ d'.lines.map tidy = d.lines.map tidy := by
  obtain ⟨name, type, value₀⟩ := v
  cases h with
  | same => exact ⟨rfl, rfl⟩
  | @noValue c hc hw =>
    obtain rfl := hnone hw
    dsimp only
    cases herror : isErrorVariable name with
    | true => rw [declareVariables_error herror, declareVariables_error herror]; exact ⟨rfl, rfl⟩
    | false =>
      rw [declareVariables_kept herror, declareVariables_kept herror, commentFirst_nil, commentFirst_nil,
        map_append, map_append]
      exact ⟨rfl, congrArg _ (congrArg (fun line => [line]) (tidy_assignment_noValue hc))⟩

/-- A type of blanks is not the type that the semicolon makes of `As`. -/
theorem declareVariables_typed {type : Text} (htype : v.type.isBlank)
    (hspells : keyword? "As".toList type = some []) (hkept : isErrorVariable v.name = false) :
    (declareVariables p indent comment (before ++ [{ v with type }])).value.locals ≠
      (declareVariables p indent comment (before ++ [v])).value.locals := by
  have hvisible : Text.isBlank type.trim = false := by
    rw [trim, isBlank_trimEnd, isBlank_trimStart]
    cases type with
    | nil => cases hspells
    | cons c type =>
      refine Bool.eq_false_iff.mpr fun hall => ?_
      rw [keyword?_as_blank (isBlank_eq_true_iff.mp hall c mem_cons_self)] at hspells
      cases hspells
  have hblank : v.type.trim = [] := by
    rw [trim, trimStart_of_isBlank htype]
    rfl
  have hnone : dataType p [] = [] := rfl
  intro heq
  rw [declareVariables_kept hkept, declareVariables_kept (v := { v with type }) hkept] at heq
  have hentry : Variable.entry p { v with type } = Variable.entry p v := by
    simpa using append_cancel_left heq
  have hsame : dataType p type.trim = [] := by
    simpa [Variable.entry, hblank, hnone] using hentry
  have hdata := isBlank_dataType p hvisible
  rw [hsame] at hdata
  cases hdata

theorem declared?_eq_none (h : t.trimStart.head? ≠ some '@') : declared? t = none := by
  have hname : atName? t.trimStart = none := by
    refine eq_none_iff_forall_ne_some.mpr fun ⟨name, rest⟩ hname => h ?_
    rw [(atName?_spec hname).1]
    rfl
  rw [declared?_eq, hname, bind_none]

theorem mapM_concat {α β : Type} (f : α → Option β) (list : List α) (a : α) :
    (list ++ [a]).mapM f = (list.mapM f).bind fun before => (f a).map fun b => before ++ [b] := by
  rw [mapM_append]
  cases list.mapM f with
  | none => rfl
  | some before => cases h : f a <;> simp [h]

/-- **A declaration with a semicolon after it** is the same if its list takes up the semicolon, and
otherwise another declaration or none. -/
theorem declare?_terminated {d : Declared} (h : (declare? p l.source).value = some d)
    (hcomment : ∀ line, declareLine? l.source = some line → line.comment = l.comment) :
    if listAbsorbs l.source then
      ∃ d', (declare? p l.terminated).value = some d' ∧ d'.locals = d.locals ∧
        d'.lines.map tidy = d.lines.map tidy
    else ∀ d', (declare? p l.terminated).value = some d' → d'.locals ≠ d.locals := by
  rw [declare?_value] at h
  obtain ⟨line, hline, hd⟩ := bind_eq_some_iff.mp h
  obtain ⟨list, hlist, rfl⟩ := map_eq_some_iff.mp hd
  obtain ⟨init, last, w, w', hlast, hw, hw', hnone, hpiece, hitems, hline'⟩ :=
    declareLine?_terminated hline (hcomment line hline)
  rw [← hcomment line hline] at hnone
  have hvisible : Text.isBlank (last ++ ';' :: w') = false :=
    isBlank_eq_false_iff.mpr ⟨';', by simp, rfl⟩
  have hfilter : ∀ item : Text, item.isBlank = false →
      (init ++ [item]).filter (fun item => !Text.isBlank item) =
        init.filter (fun item => !Text.isBlank item) ++ [item] := by
    intro item hitem
    rw [filter_append, filter_singleton, hitem]
    rfl
  rw [declare?_value, hline', bind_some, listAbsorbs, hpiece, any_some]
  dsimp only
  rw [hfilter _ hvisible, mapM_concat]
  rcases hlast with rfl | hcode
  · have hnone : declared? w = none := by
      rw [declared?_eq_none (by rw [trimStart_of_isBlank hw]; exact nofun)]
    have hnone' : plainVariable? (';' :: w') = none := by
      rw [plainVariable?, declared?_eq_none (by rw [trimStart_of_head rfl]; simp)]
      rfl
    simp [hnone, hnone']
  · have hitem : Text.isBlank (last ++ w) = false := by
      rw [isBlank_append, endsInCode_isBlank hcode, Bool.false_and]
    rw [hitems, hfilter _ hitem, mapM_concat] at hlist
    obtain ⟨before, hbefore, hlist⟩ := bind_eq_some_iff.mp hlist
    obtain ⟨v, hv, rfl⟩ := map_eq_some_iff.mp hlist
    have hread := (filter_eq_some_iff.mp hv).1
    have hgains := plainVariable?_terminated hcode hw hw' hv
    rw [hbefore, bind_some, hread, any_some, (trim_of_endsInCode hcode).1 w hw]
    generalize plainVariable? (last ++ ';' :: w') = read at hgains
    cases hgains with
    | same value hvalue hpresent =>
      have habsorbs : (!v.type.isBlank || v.value.isSome) := by
        rwa [Bool.or_eq_true, Bool.not_eq_true', isSome_iff_ne_none]
      rw [habsorbs, Bool.true_or, if_pos rfl]
      exact ⟨_, rfl, declareVariables_same hvalue hnone⟩
    | nameOnly hname htype hvalue =>
      simp [hname, htype, hvalue]
    | typed type hname htype hvalue hspells =>
      have habsorbs : (!v.type.isBlank || v.value.isSome || isErrorVariable v.name &&
          last.trimStart != '@' :: v.name) = isErrorVariable v.name := by
        rw [htype, hvalue, bne_iff_ne.mpr hname, Bool.and_true]
        rfl
      rw [habsorbs]
      cases herror : isErrorVariable v.name with
      | true =>
        refine ⟨_, rfl, ?_⟩
        dsimp only
        rw [declareVariables_error herror, declareVariables_error (v := { v with type }) herror]
        exact ⟨rfl, rfl⟩
      | false =>
        rintro _ ⟨⟩
        exact declareVariables_typed htype hspells herror

end SqlRoutine.Body
