import SqlRoutine.Proofs.Script.CalledName
import SqlRoutine.Proofs.Text.Word

/-! # The name in a definition line

A definition line has its keywords, the name of the routine with or without a schema, each part with
or without brackets, and then anything: arguments, options, a remark (`DefinitionLine`). A name of the
form `[schema].[name]` is looked for in all of it (`FirstBracketed`), and only a line without one is
read from the front. So **the routine gets the name that the line gives it** just when the name has this
form itself, or when the first name of this form behind it has the same last part
(`definition_named_iff`). -/

namespace SqlRoutine.Script

open Text
open List hiding find?

variable {c : Char} {b k name rest t w x : Text}

/-! ### Names in brackets -/

/-- The text begins with `[schema].[name]`. -/
def BeginsBracketed (t name : Text) : Prop :=
  ∃ schema after, t = '[' :: (schema ++ ']' :: '.' :: '[' :: (name ++ ']' :: after)) ∧
    schema ≠ [] ∧ ']' ∉ schema ∧ name ≠ [] ∧ ']' ∉ name

/-- **The first name in brackets with a schema** in the text. -/
inductive FirstBracketed : (t name : Text) → Prop
  | here {t name : Text} (h : BeginsBracketed t name) : FirstBracketed t name
  | later {c : Char} {t name : Text} (h : ∀ n, ¬BeginsBracketed (c :: t) n)
      (hlater : FirstBracketed t name) : FirstBracketed (c :: t) name

theorem run_to_bracket {u : Text} (h : ']' ∉ t) :
    (t ++ ']' :: u).takeWhile (· != ']') = t ∧ (t ++ ']' :: u).dropWhile (· != ']') = ']' :: u := by
  refine run_append (all_eq_true.mpr fun c hc => ?_) rfl
  have hne : c ≠ ']' := fun heq => h (heq ▸ hc)
  simpa using hne

theorem bracket_not_mem_takeWhile (t : Text) : ']' ∉ t.takeWhile (· != ']') := fun h => by
  simpa using mem_takeWhile_imp h

theorem exists_run_to_bracket (h : char? ']' (t.dropWhile (· != ']')) = some rest) :
    t = t.takeWhile (· != ']') ++ ']' :: rest := by
  rw [← char?_eq_some_iff.mp h, takeWhile_append_dropWhile]

/-- The parts of a name in brackets, read one after the other. -/
theorem bracketedName?_eq (t : Text) : bracketedName? t = (char? '[' t).bind fun inner =>
    if startsWith inner [']'] = true then none
    else (char? ']' (inner.dropWhile (· != ']'))).bind fun rest =>
      (char? '.' rest).bind fun rest => (char? '[' rest).bind fun inner =>
        if (inner.takeWhile (· != ']')).isEmpty = true then none
        else (char? ']' (inner.dropWhile (· != ']'))).map fun rest =>
          (inner.takeWhile (· != ']'), rest) := by
  unfold bracketedName?
  simp only [Option.bind_eq_bind, Option.pure_def, Option.map_eq_bind, Option.bind_none]
  rfl

theorem startsWith_bracket_iff (t : Text) : startsWith t [']'] ↔ ∃ rest, t = ']' :: rest := by
  rw [startsWith, isPrefixOf_iff_prefix]
  exact exists_congr fun rest => eq_comm

theorem bracketedName?_eq_some_iff :
    (∃ rest, bracketedName? t = some (name, rest)) ↔ BeginsBracketed t name := by
  constructor
  · rintro ⟨rest, h⟩
    simp only [bracketedName?_eq, Option.bind_eq_some_iff, Option.ite_none_left_eq_some,
      Option.map_eq_some_iff, Prod.mk.injEq] at h
    obtain ⟨inner, hopen, hschema, behind, hclose, dot, hdot, second, hsecond, hname, last, hlast,
      rfl, rfl⟩ := h
    have hinner := exists_run_to_bracket hclose
    refine ⟨inner.takeWhile (· != ']'), last, ?_, fun hnil => ?_, bracket_not_mem_takeWhile inner,
      fun hnil => ?_, bracket_not_mem_takeWhile second⟩
    · rw [← exists_run_to_bracket hlast, ← char?_eq_some_iff.mp hsecond,
        ← char?_eq_some_iff.mp hdot, ← hinner]
      exact char?_eq_some_iff.mp hopen
    · rw [hnil] at hinner
      exact hschema ((startsWith_bracket_iff inner).mpr ⟨behind, hinner⟩)
    · rw [hnil] at hname
      exact hname rfl
  · rintro ⟨schema, after, rfl, hschema, hopen, hname, hclose⟩
    have hinner : ¬startsWith (schema ++ ']' :: '.' :: '[' :: (name ++ ']' :: after)) [']'] =
        true := by
      rw [startsWith_bracket_iff]
      rintro ⟨rest, hrest⟩
      obtain ⟨c, schema, rfl⟩ := exists_cons_of_ne_nil hschema
      exact hopen ((List.cons.inj hrest).1 ▸ mem_cons_self)
    have hnamed : ¬name.isEmpty := by simpa using hname
    refine ⟨after, ?_⟩
    simp only [bracketedName?_eq, char?_cons_self, Option.bind_some, if_neg hinner,
      (run_to_bracket hopen).2, (run_to_bracket hclose).1, (run_to_bracket hclose).2, if_neg hnamed,
      Option.map_some]

/-- **The search finds the first name in brackets.** -/
theorem findFrom_bracketedName?_iff {name : Text} : ∀ (t : Text) (prev : Option Char) (position : ℕ),
    (∃ place, findFrom (fun _ t => bracketedName? t) prev position t = some (place, name)) ↔
      FirstBracketed t name
  | [], prev, position => by
    constructor
    · rintro ⟨place, h⟩
      cases h
    · rintro ⟨_, _, h, -⟩
      cases h
  | c :: t, prev, position => by
    rw [findFrom]
    cases hread : bracketedName? (c :: t) with
    | none =>
      have hnone : ∀ n, ¬BeginsBracketed (c :: t) n := by
        intro n hn
        obtain ⟨rest, hrest⟩ := bracketedName?_eq_some_iff.mpr hn
        rw [hread] at hrest
        cases hrest
      refine (findFrom_bracketedName?_iff t _ _).trans ⟨.later hnone, fun h => ?_⟩
      cases h with
      | here hhere => exact absurd hhere (hnone name)
      | later _ hlater => exact hlater
    | some found =>
      obtain ⟨n, rest⟩ := found
      have hn : BeginsBracketed (c :: t) n := bracketedName?_eq_some_iff.mp ⟨rest, hread⟩
      constructor
      · rintro ⟨_, h⟩
        cases h
        exact .here hn
      · intro h
        cases h with
        | here hhere =>
          obtain ⟨rest', hrest'⟩ := bracketedName?_eq_some_iff.mpr hhere
          rw [hread] at hrest'
          cases hrest'
          exact ⟨position, rfl⟩
        | later hnone _ => exact absurd hn (hnone n)

theorem firstBracketed_append (hx : '[' ∉ x) (t name : Text) :
    FirstBracketed (x ++ t) name ↔ FirstBracketed t name := by
  induction x with
  | nil => rfl
  | cons c x ih =>
    have hc : c ≠ '[' := fun heq => hx (heq ▸ mem_cons_self)
    have hnone : ∀ n, ¬BeginsBracketed (c :: (x ++ t)) n := by
      rintro n ⟨_, _, heq, -⟩
      exact hc (List.cons.inj heq).1
    have hiff := ih fun hmem => hx (mem_cons_of_mem _ hmem)
    refine ⟨fun h => ?_, fun h => .later hnone (hiff.mpr h)⟩
    cases h with
    | here hhere => exact absurd hhere (hnone name)
    | later _ hlater => exact hiff.mp hlater

theorem beginsBracketed_append_blank (hb : Text.isBlank b) :
    BeginsBracketed (t ++ b) name ↔ BeginsBracketed t name := by
  constructor
  · rintro ⟨schema, after, heq, h⟩
    have hsplit : t ++ b = ('[' :: (schema ++ ']' :: '.' :: '[' :: (name ++ [']']))) ++ after := by
      rw [heq]
      simp
    rcases append_eq_append_iff.mp hsplit with ⟨m, hm, hafter⟩ | ⟨m, hm, -⟩
    · rcases eq_nil_or_concat m with rfl | ⟨m, d, rfl⟩
      · refine ⟨schema, [], ?_, h⟩
        rw [append_nil] at hm
        rw [← hm]
      · have hlast : d = ']' := by
          have hends := congrArg List.getLast? hm
          simpa [getLast?_append, getLast?_cons] using hends.symm
        have hmem : d ∈ b := by
          rw [hafter]
          simp
        have hblank := isBlank_eq_true_iff.mp hb d hmem
        rw [hlast] at hblank
        exact absurd hblank (by decide)
    · exact ⟨schema, m, by rw [hm]; simp, h⟩
  · rintro ⟨schema, after, rfl, h⟩
    exact ⟨schema, after ++ b, by simp, h⟩

theorem firstBracketed_append_blank (hb : Text.isBlank b) (t name : Text) :
    FirstBracketed (t ++ b) name ↔ FirstBracketed t name := by
  induction t with
  | nil =>
    have hopen : '[' ∉ b := fun hmem =>
      absurd (isBlank_eq_true_iff.mp hb _ hmem) (by decide)
    have hpassed := firstBracketed_append hopen [] name
    rwa [append_nil] at hpassed
  | cons c t ih =>
    have hbegins (n : Text) : BeginsBracketed (c :: (t ++ b)) n ↔ BeginsBracketed (c :: t) n :=
      beginsBracketed_append_blank (t := c :: t) hb
    constructor
    · intro h
      cases h with
      | here hhere => exact .here ((hbegins name).mp hhere)
      | later hnone hlater =>
        exact .later (fun n hn => hnone n ((hbegins n).mpr hn)) (ih.mp hlater)
    · intro h
      cases h with
      | here hhere => exact .here ((hbegins name).mpr hhere)
      | later hnone hlater =>
        exact .later (fun n hn => hnone n ((hbegins n).mp hn)) (ih.mpr hlater)

/-! ### The name of a routine -/

/-- A part of a name: an identifier, in brackets or not. -/
structure NamePart where
  name : Text
  inBrackets : Bool
  identifier : isIdentifier name

namespace NamePart

/-- The part as it is written. -/
def text (p : NamePart) : Text := if p.inBrackets then '[' :: (p.name ++ [']']) else p.name

variable (p : NamePart)

theorem ascii : p.name.all isAsciiWord := (isIdentifier_iff.mp p.identifier).2

theorem ne_nil : p.name ≠ [] := (isIdentifier_iff.mp p.identifier).1

theorem not_mem (hc : isAsciiWord c = false) : c ∉ p.name := fun hmem => by
  rw [all_eq_true.mp p.ascii c hmem] at hc
  cases hc

theorem text_ne_nil : p.text ≠ [] := by
  unfold text
  split_ifs
  · exact cons_ne_nil _ _
  · exact p.ne_nil

theorem not_ending_of_mem (hc : c ∈ p.text) : isBlank c = false ∧ c ≠ '(' ∧ c ≠ '.' ∧ c ≠ '\n' := by
  have hword (h : c ∈ p.name) : isBlank c = false ∧ c ≠ '(' ∧ c ≠ '.' ∧ c ≠ '\n' := by
    refine ⟨not_blank_of_mem (all_isNameChar p.ascii) h, ?_, ?_, ?_⟩
    all_goals
      rintro rfl
      exact absurd h (p.not_mem (by decide))
  unfold text at hc
  split_ifs at hc
  · rcases mem_cons.mp hc with rfl | hc
    · decide
    · rcases mem_append.mp hc with hc | hc
      · exact hword hc
      · obtain rfl := mem_singleton.mp hc
        decide
  · exact hword hc

theorem dropAround_text : p.text.dropAround (fun c => c == '[' || c == ']') = p.name := by
  have hnone : ∀ c ∈ p.name, (c == '[' || c == ']') = false := fun c hc =>
    not_bracket_of_mem (all_isNameChar p.ascii) hc
  have hbare := dropAround_of_none hnone
  unfold text
  split_ifs
  · obtain ⟨c, u, hu⟩ := exists_cons_of_ne_nil p.ne_nil
    have hdrop : (p.name ++ [']']).dropWhile (fun c => c == '[' || c == ']') = p.name ++ [']'] := by
      rw [hu]
      have hc := hnone c (hu ▸ mem_cons_self)
      exact dropWhile_cons_of_neg (by simpa using hc)
    have hstart : p.name.dropWhile (fun c => c == '[' || c == ']') = p.name := by
      rw [hu]
      exact dropWhile_cons_of_neg (by simpa using hnone c (hu ▸ mem_cons_self))
    have hend : dropEndWhile (fun c => c == '[' || c == ']') p.name = p.name := by
      rw [dropAround, hstart] at hbare
      exact hbare
    rw [dropEndWhile] at hend
    rw [dropAround, dropWhile_cons_of_pos (by decide), hdrop, dropEndWhile,
      reverse_append, reverse_singleton, singleton_append,
      dropWhile_cons_of_pos (by decide), hend]
  · exact hbare

/-- A part is passed over, unless it is the schema of a name in brackets. -/
theorem firstBracketed_text (ht : p.inBrackets → ∀ u, t ≠ '.' :: '[' :: u)
    (name : Text) : FirstBracketed (p.text ++ t) name ↔ FirstBracketed t name := by
  have hopen : '[' ∉ p.name := p.not_mem (by decide)
  have hclose : ']' ∉ p.name := p.not_mem (by decide)
  unfold text
  split_ifs with hbrackets
  · have hnone : ∀ n, ¬BeginsBracketed ('[' :: (p.name ++ ']' :: t)) n := by
      rintro n ⟨schema, after, heq, -, hschema, -⟩
      have hruns := congrArg (List.dropWhile (· != ']')) (List.cons.inj heq).2
      rw [(run_to_bracket hclose).2, (run_to_bracket hschema).2] at hruns
      exact ht hbrackets _ (List.cons.inj hruns).2
    have hpassed : FirstBracketed ((p.name ++ [']']) ++ t) name ↔ FirstBracketed t name :=
      firstBracketed_append (by simpa using hopen) t name
    rw [append_assoc, singleton_append] at hpassed
    have hshape : '[' :: (p.name ++ [']']) ++ t = '[' :: (p.name ++ ']' :: t) := by simp
    rw [hshape]
    refine ⟨fun h => ?_, fun h => .later hnone (hpassed.mpr h)⟩
    cases h with
    | here hhere => exact absurd hhere (hnone name)
    | later _ hlater => exact hpassed.mp hlater
  · exact firstBracketed_append hopen t name

end NamePart

/-- A name as a line may write it: `o`, `[o]`, `s.o`, `s.[o]`, `[s].o` or `[s].[o]`. -/
structure WrittenName where
  schema : Option NamePart
  object : NamePart

namespace WrittenName

variable (n : WrittenName)

/-- The name as it is written. -/
def text : Text := (n.schema.elim [] fun s => s.text ++ ['.']) ++ n.object.text

/-- The name has a schema, and both are in brackets. -/
def InBrackets : Prop := n.schema.any (·.inBrackets) ∧ n.object.inBrackets

/-- The text does not go on with the name. -/
def Ends (rest : Text) : Prop := rest.head?.all (fun c => isBlank c || c == '(')

theorem objectName_text : objectName n.text = n.object.name := by
  have hdot : '.' ∉ n.object.text := fun hmem => (n.object.not_ending_of_mem hmem).2.2.1 rfl
  have hlast : n.text.afterLast '.' = n.object.text := by
    unfold text
    cases n.schema with
    | none => exact afterLast_of_not_mem hdot
    | some s =>
      have hshape : (s.text ++ ['.']) ++ n.object.text = s.text ++ '.' :: n.object.text := by simp
      exact hshape ▸ afterLast_append hdot
  rw [objectName, hlast, n.object.dropAround_text]

theorem objectName_name : objectName n.object.name = n.object.name := by
  have hdot : '.' ∉ n.object.name := n.object.not_mem (by decide)
  rw [objectName, afterLast_of_not_mem hdot]
  exact dropAround_of_none fun c hc => not_bracket_of_mem (all_isNameChar n.object.ascii) hc

theorem not_ending_of_mem (hc : c ∈ n.text) : isBlank c = false ∧ c ≠ '(' ∧ c ≠ '\n' := by
  have hpart {p : NamePart} (h : c ∈ p.text) : isBlank c = false ∧ c ≠ '(' ∧ c ≠ '\n' :=
    have hall := p.not_ending_of_mem h
    ⟨hall.1, hall.2.1, hall.2.2.2⟩
  unfold text at hc
  rcases mem_append.mp hc with hc | hc
  · cases hs : n.schema with
    | none =>
      rw [hs] at hc
      cases hc
    | some s =>
      rw [hs] at hc
      rcases mem_append.mp hc with hc | hc
      · exact hpart hc
      · obtain rfl := mem_singleton.mp hc
        decide
  · exact hpart hc

theorem text_ne_nil : n.text ≠ [] := fun h => n.object.text_ne_nil (append_eq_nil_iff.mp h).2

/-- **The name is read off the front** of a text without a name in brackets. -/
theorem takeWhile_text (hrest : Ends rest) :
    (n.text ++ rest).takeWhile (fun c => !isBlank c && c != '(') = n.text := by
  refine (run_append (all_eq_true.mpr fun c hc => ?_) ?_).1
  · obtain ⟨hblank, hopen, -⟩ := n.not_ending_of_mem hc
    simp [hblank, hopen]
  · cases rest with
    | nil => rfl
    | cons c rest =>
      have hc : (isBlank c || c == '(') := hrest
      rcases Bool.or_eq_true_iff.mp hc with hc | hc <;> simp_all

theorem firstBracketed_of_inBrackets (h : n.InBrackets) (rest : Text) :
    FirstBracketed (n.text ++ rest) n.object.name := by
  obtain ⟨hs, ho⟩ := h
  cases hschema : n.schema with
  | none =>
    rw [hschema] at hs
    cases hs
  | some s =>
    have hbrackets : s.inBrackets := by rwa [hschema] at hs
    refine .here ⟨s.name, rest, ?_, s.ne_nil, s.not_mem (by decide), n.object.ne_nil,
      n.object.not_mem (by decide)⟩
    simp [text, hschema, NamePart.text, hbrackets, ho]

theorem firstBracketed_text (h : ¬n.InBrackets) (hrest : Ends rest) (name : Text) :
    FirstBracketed (n.text ++ rest) name ↔ FirstBracketed rest name := by
  have hobject : FirstBracketed (n.object.text ++ rest) name ↔ FirstBracketed rest name := by
    refine n.object.firstBracketed_text (fun _ u heq => ?_) name
    rw [heq] at hrest
    cases hrest
  unfold text
  cases hs : n.schema with
  | none => exact hobject
  | some s =>
    have hshape : (Option.elim (some s) [] fun s => s.text ++ ['.']) ++ n.object.text ++ rest =
        s.text ++ '.' :: (n.object.text ++ rest) := by simp
    have hschema : FirstBracketed (s.text ++ '.' :: (n.object.text ++ rest)) name ↔
        FirstBracketed ('.' :: (n.object.text ++ rest)) name := by
      refine s.firstBracketed_text (fun hbrackets u heq => h ⟨by simp [hs, hbrackets], ?_⟩) name
      -- Behind the schema in brackets a bracket opens the object name too.
      by_contra hbare
      obtain ⟨c, v, hv⟩ := exists_cons_of_ne_nil n.object.ne_nil
      have htext : n.object.text = n.object.name := if_neg hbare
      rw [htext, hv, cons_append] at heq
      obtain rfl : c = '[' := (List.cons.inj (List.cons.inj heq).2).1
      exact n.object.not_mem (c := '[') (by decide) (hv ▸ mem_cons_self)
    rw [hshape, hschema]
    exact (firstBracketed_append (x := ['.']) (by decide) _ name).trans hobject

/-- **The name that is read**, in all its forms. -/
theorem objectName_qualifiedName_iff (hrest : Ends rest) :
    objectName (qualifiedName (n.text ++ rest)) = n.object.name ↔
      n.InBrackets ∨ ∀ name, FirstBracketed rest name → objectName name = n.object.name := by
  have hfound {name : Text} (h : FirstBracketed (n.text ++ rest) name) :
      qualifiedName (n.text ++ rest) = name := by
    obtain ⟨place, hat⟩ := (findFrom_bracketedName?_iff _ none 0).mpr h
    rw [qualifiedName, find?, hat]
  by_cases hbrackets : n.InBrackets
  · rw [hfound (n.firstBracketed_of_inBrackets hbrackets rest), n.objectName_name]
    exact ⟨fun _ => .inl hbrackets, fun _ => rfl⟩
  · simp only [hbrackets, false_or]
    have hpassed := n.firstBracketed_text hbrackets hrest
    by_cases hfirst : ∃ name, FirstBracketed rest name
    · obtain ⟨name, hname⟩ := hfirst
      have hread := hfound ((hpassed name).mpr hname)
      rw [hread]
      refine ⟨fun h other hother => ?_, fun h => h name hname⟩
      rw [← hfound ((hpassed other).mpr hother), hread, h]
    · have hnone : findFrom (fun _ t => bracketedName? t) none 0 (n.text ++ rest) = none := by
        rw [Option.eq_none_iff_forall_ne_some]
        rintro ⟨place, name⟩ hat
        exact hfirst ⟨name, (hpassed name).mp ((findFrom_bracketedName?_iff _ none 0).mp ⟨place, hat⟩)⟩
      rw [qualifiedName, find?, hnone]
      dsimp only
      rw [n.takeWhile_text hrest, n.objectName_text]
      exact ⟨fun _ name hname => absurd ⟨name, hname⟩ hfirst, fun _ => rfl⟩

end WrittenName

/-! ### Definition lines -/

/-- The keywords one after the other, in any case, with blanks behind each of them. -/
inductive Keywords : (keywords : List Text) → (t : Text) → Prop
  | nil : Keywords [] []
  | cons {k w b t : Text} {ks : List Text} (hword : Spells k w) (hne : b ≠ [])
      (hblank : Text.isBlank b) (hrest : Keywords ks t) : Keywords (k :: ks) (w ++ (b ++ t))

/-- The keywords that open a definition. -/
def openings : List (List Text) :=
  [["CREATE".toList], ["ALTER".toList], ["CREATE".toList, "OR".toList, "ALTER".toList]]

/-- The keywords for the kind of a routine. -/
def kindKeywords : List Text := ["PROCEDURE".toList, "PROC".toList, "FUNCTION".toList]

/-- **A definition line**: keywords, a name, and anything that is set apart from the name. -/
structure DefinitionLine where
  keywords : List Text
  opening : Text
  kindKeyword : Text
  kind : Text
  gap : Text
  name : WrittenName
  rest : Text
  keywords_mem : keywords ∈ openings
  opening_keywords : Keywords keywords opening
  kind_mem : kindKeyword ∈ kindKeywords
  kind_spells : Spells kindKeyword kind
  gap_blank : gap.isBlank
  /-- A name in brackets may follow the keyword without a blank. -/
  gap_apart : atWordEnd (gap ++ name.text)
  rest_ends : WrittenName.Ends rest
  rest_oneLine : '\n' ∉ rest

namespace DefinitionLine

variable (l : DefinitionLine)

/-- The line as it is written. -/
def text : Text := l.opening ++ (l.kind ++ (l.gap ++ (l.name.text ++ l.rest)))

end DefinitionLine

/-- A keyword and the blanks behind it are read together. -/
theorem keyword?_blanks (hword : Spells k w) (hne : b ≠ [])
    (hb : Text.isBlank b) (ht : t.trimStart = t) :
    (keyword? k (w ++ (b ++ t))).bind blanks? = some t := by
  rw [keyword?_append hword, Option.bind_some, blanks?_append hne hb, ht]

theorem trimStart_of_spells (hk : isIdentifier k) (hword : Spells k w)
    (t : Text) : (w ++ t).trimStart = w ++ t := by
  obtain ⟨hne, hascii⟩ := isIdentifier_iff.mp hk
  have hwords := all_isWord_of_spells hascii hword
  have hlength := length_of_spells hword
  cases w with
  | nil => exact absurd (length_eq_zero_iff.mp hlength.symm) hne
  | cons c w =>
    have hc : isWord c := all_eq_true.mp hwords c mem_cons_self
    refine trimStart_of_head (Bool.eq_false_iff.mpr fun hblank => ?_)
    rw [isWord_blank hblank] at hc
    cases hc

/-- A word whose length is that of no keyword for a kind is none. -/
theorem word?_of_length (hk : k.all isAsciiWord)
    (hw : w.all isWord) (ht : atWordEnd t) (hlength : w.length ≠ k.length) :
    word? k (w ++ t) = none := by
  rw [word?_run hk, (run_of_atWordEnd hw ht).1]
  exact if_neg fun hspells => hlength (length_of_spells hspells)

theorem word?_of_spells (hk : k.all isAsciiWord)
    (hword : Spells k w) (ht : atWordEnd t) : word? k (w ++ t) = some t := by
  obtain ⟨htake, hdrop⟩ := run_of_atWordEnd (all_isWord_of_spells hk hword) ht
  rw [word?_run hk, htake, hdrop, if_pos hword]

theorem kindKeywords_words : ∀ k ∈ kindKeywords, isIdentifier k := by decide

/-- **The keyword for the kind is read.** -/
theorem kind?_of_spells (hk : k ∈ kindKeywords) (hword : Spells k w)
    (ht : atWordEnd t) : kind? (w ++ t) = some (w, t) := by
  have hascii (k : Text) (hk : k ∈ kindKeywords) : k.all isAsciiWord :=
    (isIdentifier_iff.mp (kindKeywords_words k hk)).2
  have hw := all_isWord_of_spells (hascii k hk) hword
  have hlength := length_of_spells hword
  have hread := word?_of_spells (hascii k hk) hword ht
  have hother (l : Text) (hl : l ∈ kindKeywords) (hne : k.length ≠ l.length) :
      word? l (w ++ t) = none := word?_of_length (hascii l hl) hw ht (hlength ▸ hne)
  have hbefore : readBefore t (w ++ t) = w := readBefore_append w t
  simp only [kindKeywords, mem_cons, not_mem_nil, or_false] at hk
  rcases hk with rfl | rfl | rfl
  · simp only [kind?, findSome?_cons, hread, Option.map_some, hbefore]
  · have hfirst := hother "PROCEDURE".toList (by decide) (by decide)
    simp only [kind?, findSome?_cons, hfirst, hread, Option.map_some, Option.map_none, hbefore]
  · have hfirst := hother "PROCEDURE".toList (by decide) (by decide)
    have hsecond := hother "PROC".toList (by decide) (by decide)
    simp only [kind?, findSome?_cons, hfirst, hsecond, hread, Option.map_some, Option.map_none,
      hbefore]

theorem kind?_or (hword : Spells "OR".toList w) (ht : atWordEnd t) :
    kind? (w ++ t) = none := by
  have hw : w.all isWord := all_isWord_of_spells (by decide) hword
  have hlength : w.length = 2 := length_of_spells hword
  have hnone (k : Text) (hk : k ∈ kindKeywords) : word? k (w ++ t) = none := by
    refine word?_of_length (isIdentifier_iff.mp (kindKeywords_words k hk)).2 hw ht ?_
    rw [hlength]
    revert k
    decide
  rw [kind?, findSome?_eq_none_iff]
  intro k hk
  rw [hnone k hk, Option.map_none]

/-- The kind and the rest of a definition behind its first keywords. -/
def kindAndRest? (t : Text) : Option Create :=
  (kind? t).bind fun (keyword, rest) => (restOfLine? rest.trimStart).map fun rest =>
    ⟨if keyword.upper == "FUNCTION".toList then .function else .procedure, rest.trim⟩

theorem create?_eq (line : Text) : create? line = (afterCreate line).findSome? kindAndRest? := rfl

/-- **The first keywords of a definition are read** in each of their forms. -/
theorem create?_opening {keywords : List Text} {opening : Text} {create : Create}
    (hmem : keywords ∈ openings) (hopening : Keywords keywords opening) (ht : t.trimStart = t)
    (hread : kindAndRest? t = some create) : create? (opening ++ t) = some create := by
  have hother {k l w rest : Text} (hw : Spells k w) (hdiffer : differ k l) :
      (keyword? l (w ++ rest)).bind blanks? = none := by
    rw [keyword?_of_differ hdiffer (keyword?_append hw rest), Option.bind_none]
  simp only [openings, mem_cons, not_mem_nil, or_false] at hmem
  rcases hmem with rfl | rfl | rfl
  · obtain _ | @⟨_, w, b, _, _, hword, hne, hblank, _ | _⟩ := hopening
    have hcreate := keyword?_blanks hword hne hblank ht
    rw [append_nil, append_assoc, create?_eq, afterCreate, hcreate]
    simp [hread]
  · obtain _ | @⟨_, w, b, _, _, hword, hne, hblank, _ | _⟩ := hopening
    have halter := keyword?_blanks hword hne hblank ht
    have hcreate : (keyword? "CREATE".toList (w ++ (b ++ t))).bind blanks? = none :=
      hother hword rfl
    rw [append_nil, append_assoc]
    simp only [create?_eq, afterCreate, hcreate, halter, Option.bind_none, Option.toList_some,
      Option.toList_none, append_nil, nil_append, findSome?_cons, hread]
  · obtain _ | @⟨_, w, b, _, _, hword, hne, hblank, _ | @⟨_, w', b', _, _, hword', hne', hblank',
      _ | @⟨_, w'', b'', _, _, hword'', hne'', hblank'', _ | _⟩⟩⟩ := hopening
    have halter := keyword?_blanks hword'' hne'' hblank'' ht
    have hor := keyword?_blanks hword' hne' hblank'
      (trimStart_of_spells (by decide) hword'' (b'' ++ t))
    have hcreate := keyword?_blanks hword hne hblank
      (trimStart_of_spells (by decide) hword' (b' ++ (w'' ++ (b'' ++ t))))
    have hfirst : (keyword? "ALTER".toList (w ++ (b ++ (w' ++ (b' ++ (w'' ++ (b'' ++ t))))))).bind
        blanks? = none := hother hword rfl
    have hnone : kindAndRest? (w' ++ (b' ++ (w'' ++ (b'' ++ t)))) = none := by
      rw [kindAndRest?, kind?_or hword' (atWordEnd_blank hne' hblank' _), Option.bind_none]
    simp only [append_nil, append_assoc]
    simp only [create?_eq, afterCreate, hcreate, hfirst, Option.bind_some, hor, halter,
      Option.toList_some, Option.toList_none, append_nil, cons_append, nil_append,
      findSome?_cons, hnone, hread]

theorem trimEnd_append (hx : ∀ c ∈ x, isBlank c = false) (t : Text) :
    (x ++ t).trimEnd = x ++ t.trimEnd := by
  induction x with
  | nil => rfl
  | cons c x ih =>
    rw [cons_append, trimEnd_cons (hx c mem_cons_self),
      ih fun d hd => hx d (mem_cons_of_mem _ hd)]
    rfl

theorem exists_blank_of_trimEnd (t : Text) : ∃ b, Text.isBlank b ∧ t = t.trimEnd ++ b :=
  ⟨t.rtakeWhile isBlank, isBlank_eq_true_iff.mpr fun _ => mem_rtakeWhile_imp,
    (rdropWhile_append_rtakeWhile ..).symm⟩

namespace DefinitionLine

variable (l : DefinitionLine)

/-- **The line is read as a definition**, with its name at the front of the rest. -/
theorem create?_text : ∃ kind, create? l.text = some ⟨kind, l.name.text ++ l.rest.trimEnd⟩ := by
  have hvisible : ∀ c ∈ l.name.text, isBlank c = false := fun c hc => (l.name.not_ending_of_mem hc).1
  have honeLine : '\n' ∉ l.name.text ++ l.rest := by
    intro hmem
    rcases mem_append.mp hmem with hmem | hmem
    · exact (l.name.not_ending_of_mem hmem).2.2 rfl
    · exact l.rest_oneLine hmem
  have hstart : (l.name.text ++ l.rest).trimStart = l.name.text ++ l.rest := by
    obtain ⟨c, u, hu⟩ := exists_cons_of_ne_nil l.name.text_ne_nil
    rw [hu]
    exact trimStart_of_head (hvisible c (hu ▸ mem_cons_self))
  have hend : atWordEnd (l.gap ++ (l.name.text ++ l.rest)) := by
    obtain ⟨c, u, hu⟩ := exists_cons_of_ne_nil
      (append_ne_nil_of_right_ne_nil l.gap l.name.text_ne_nil)
    have hapart := l.gap_apart
    rw [hu] at hapart
    rw [← append_assoc, hu]
    exact hapart
  have hread : kindAndRest? (l.kind ++ (l.gap ++ (l.name.text ++ l.rest))) =
      some ⟨if l.kind.upper == "FUNCTION".toList then .function else .procedure,
        l.name.text ++ l.rest.trimEnd⟩ := by
    rw [kindAndRest?, kind?_of_spells l.kind_mem l.kind_spells hend, Option.bind_some]
    dsimp only
    rw [trimStart_append l.gap_blank, hstart, restOfLine?_of_oneLine honeLine,
      Option.map_some, trim, hstart, trimEnd_append hvisible]
  exact ⟨_, create?_opening l.keywords_mem l.opening_keywords
    (trimStart_of_spells (kindKeywords_words _ l.kind_mem) l.kind_spells _) hread⟩

end DefinitionLine

/-- **The routine gets the name of its definition line**, whatever follows the name, just when schema and
object are in brackets there, or the first name in brackets behind them ends with the same object name. -/
theorem definition_named_iff (c : Converter) (s : State) (ahead : List Text) (l : DefinitionLine)
    (hfinish : (finishRoutine c s).fault = none) {names : List Text}
    (hskip : c.profile.skipped = .ok names) :
    ∃ t, step c s l.text ahead = ⟨⟨t, none⟩, 0⟩ ∧
      (t.definition.name = c.profile.schema ++ '.' :: l.name.object.name ∧
          t.definition.sourceName = l.name.object.name ↔
        l.name.InBrackets ∨
          ∀ name, FirstBracketed l.rest name → objectName name = l.name.object.name) := by
  obtain ⟨kind, hcreate⟩ := l.create?_text
  obtain ⟨b, hb, hrest⟩ := exists_blank_of_trimEnd l.rest
  have hends : WrittenName.Ends l.rest.trimEnd := by
    have hline := l.rest_ends
    rw [hrest] at hline
    cases htrim : l.rest.trimEnd with
    | nil => rfl
    | cons c u =>
      rw [htrim] at hline
      exact hline
  have hfirst (name : Text) : FirstBracketed l.rest name ↔ FirstBracketed l.rest.trimEnd name := by
    nth_rewrite 1 [hrest]
    exact firstBracketed_append_blank hb l.rest.trimEnd name
  have hname := l.name.objectName_qualifiedName_iff hends
  rw [step_of_create? hcreate, startRoutine, finishRoutine_setSkipGo, hfinish]
  dsimp only
  rw [Profile.skips, hskip]
  refine ⟨_, rfl, ?_⟩
  simp only [hfirst]
  rw [← hname]
  constructor
  · exact fun h => h.2
  · intro h
    exact ⟨by rw [← h]; rfl, h⟩

/-- The type of an argument names the routine; a remark with the old schema does not. -/
theorem definition_named_jobType :
    let c : Converter := ⟨Profile.standard, none, ⟨2025, 3, 9⟩⟩
    (∃ t, step c {} "CREATE PROCEDURE dbo.AddJob (@type [dbo].[JobType])".toList [] =
        ⟨⟨t, none⟩, 0⟩ ∧ ¬(t.definition.name = "public.AddJob".toList ∧
          t.definition.sourceName = "AddJob".toList)) ∧
      ∃ t, step c {} "Create or alter proc[sw].AddJob -- was [dbo].[AddJob]".toList [] =
        ⟨⟨t, none⟩, 0⟩ ∧ t.definition.name = "public.AddJob".toList ∧
          t.definition.sourceName = "AddJob".toList := by
  intro c
  have hcreate : Keywords ["CREATE".toList] "CREATE ".toList :=
    .cons (w := "CREATE".toList) (b := [' ']) (by decide) (by decide) rfl .nil
  have horAlter : Keywords ["CREATE".toList, "OR".toList, "ALTER".toList] "Create or alter ".toList :=
    .cons (w := "Create".toList) (b := [' ']) (by decide) (by decide) rfl
      (.cons (w := "or".toList) (b := [' ']) (by decide) (by decide) rfl
        (.cons (w := "alter".toList) (b := [' ']) (by decide) (by decide) rfl .nil))
  let typed : DefinitionLine :=
    { keywords := ["CREATE".toList], opening := "CREATE ".toList
      opening_keywords := hcreate, keywords_mem := by decide
      kindKeyword := "PROCEDURE".toList, kind := "PROCEDURE".toList, kind_mem := by decide
      kind_spells := rfl, gap := [' '], gap_blank := rfl
      name := ⟨some ⟨"dbo".toList, false, rfl⟩, ⟨"AddJob".toList, false, rfl⟩⟩, gap_apart := rfl
      rest := " (@type [dbo].[JobType])".toList, rest_ends := rfl, rest_oneLine := by decide }
  let remarked : DefinitionLine :=
    { keywords := ["CREATE".toList, "OR".toList, "ALTER".toList]
      opening := "Create or alter ".toList
      opening_keywords := horAlter, keywords_mem := by decide
      kindKeyword := "PROC".toList, kind := "proc".toList, kind_mem := by decide
      kind_spells := by decide, gap := [], gap_blank := rfl
      name := ⟨some ⟨"sw".toList, true, rfl⟩, ⟨"AddJob".toList, false, rfl⟩⟩, gap_apart := rfl
      rest := " -- was [dbo].[AddJob]".toList, rest_ends := rfl, rest_oneLine := by decide }
  refine ⟨?_, ?_⟩
  · obtain ⟨t, hstep, hiff⟩ := definition_named_iff c {} [] typed rfl rfl
    have hfirst : FirstBracketed typed.rest "JobType".toList :=
      (findFrom_bracketedName?_iff _ none 0).mp ⟨8, rfl⟩
    refine ⟨t, hstep, fun hnamed => ?_⟩
    rcases hiff.mp hnamed with ⟨-, hbrackets⟩ | hsame
    · cases hbrackets
    · have hwrong : objectName "JobType".toList ≠ "AddJob".toList := by decide
      exact hwrong (hsame _ hfirst)
  · obtain ⟨t, hstep, hiff⟩ := definition_named_iff c {} [] remarked rfl rfl
    refine ⟨t, hstep, hiff.mpr (.inr fun name hname => ?_)⟩
    obtain ⟨place, hat⟩ := (findFrom_bracketedName?_iff _ none 0).mpr hname
    have hfound : Text.findFrom (fun _ t => bracketedName? t) none 0 remarked.rest =
        some (8, "AddJob".toList) := rfl
    cases hfound.symm.trans hat
    rfl

end SqlRoutine.Script
