import SqlRoutine.Proofs.Expression.Blank
import SqlRoutine.Proofs.Text.Substitution

/-! # Renaming is complete

Each rule puts a name in the place of a name, and no rule brings back what another one, or itself, has
taken away: that is checked for every pair of rules, letter by letter (`rules_clear`). So **after all the
rules nothing is left that one of them asks for** (`literal_clean`), and renaming a line again changes
nothing (`literal_idempotent`). -/

namespace SqlRoutine.Expression

open List Option Text

namespace Rule

variable {r l : Rule} {t : Text}

/-- **What a rule asks for stands somewhere in the text**: one of its words, in any case, with the ending,
and where the rule says so only where a word may start. -/
def OccursIn (r : Rule) (t : Text) : Prop :=
  ∃ before word w ending after, t = before ++ (w ++ (ending ++ after)) ∧ word ∈ r.words ∧
    Spells word w ∧ r.ending.Closes ending after ∧
    (r.atStart → atWordStart before.getLast?)

theorem isSome_read?_iff : (r.read? t).isSome ↔
    ∃ word ∈ r.words, ((keyword? word t).bind r.ending.read?).isSome := by
  unfold read?
  exact findSome?_isSome_iff

theorem occurs_iff : r.substitution.Occurs t ↔ r.OccursIn t := by
  constructor
  · rintro ⟨before, v, rfl, hfound⟩
    obtain ⟨hroom, hread⟩ := Substitution.isSome_finder_iff.mp hfound
    obtain ⟨word, hword, hread⟩ := isSome_read?_iff.mp hread
    obtain ⟨after, hafter⟩ := isSome_iff_exists.mp hread
    obtain ⟨left, hkeyword, hending⟩ := bind_eq_some_iff.mp hafter
    obtain ⟨w, hw, rfl⟩ := keyword?_eq_some_iff.mp hkeyword
    obtain ⟨ending, rfl, hcloses⟩ := Ending.read?_eq_some_iff.mp hending
    exact ⟨before, word, w, ending, after, rfl, hword, hw, hcloses, hroom⟩
  · rintro ⟨before, word, w, ending, after, rfl, hword, hw, hcloses, hroom⟩
    refine ⟨before, _, rfl, Substitution.isSome_finder_iff.mpr ⟨hroom, ?_⟩⟩
    refine isSome_read?_iff.mpr ⟨word, hword, ?_⟩
    rw [keyword?_append hw, bind_some, Ending.read?_eq_some_iff.mpr ⟨ending, rfl, hcloses⟩]
    rfl

/-! ### Rules that spare one another -/

/-- The replacement of `r` takes part in no word of `l`, and no word of `l` starts in it. -/
def clear (r l : Rule) : Bool :=
  l.words.all (clashes r.atStart r.replacement none) &&
    startsNone l.atStart l.words none r.replacement

theorem readsThrough_ending {s : Substitution} (hs : s.Named) :
    ∀ e : Ending, ReadsThrough s.finder e.read?
  | .opened => hs.through_sign (by decide)
  | .emptyCall => (hs.through_sign (c := '(') (by decide)).bind (hs.through_sign (c := ')') (by decide))
  | .wordEnd => hs.through_wordEnd
  | .anything => readsThrough_some

/-- **A substitution spares what a rule asks for**, if its replacement takes part in no word of the rule and
no word of the rule starts in it. -/
theorem spares_of_named {s : Substitution} (hs : s.Named)
    (hwords : l.words.all (clashes s.atStart s.replacement none))
    (hinside : startsNone l.atStart l.words none s.replacement) :
    s.Spares l.substitution where
  through := by
    intro prev t hscan
    obtain ⟨word, hword, hread⟩ := isSome_read?_iff.mp hscan
    have hthrough : ReadsThrough s.finder fun t => (keyword? word t).bind l.ending.read? :=
      (hs.through_keyword? (List.all_eq_true.mp hwords word hword)).bind (readsThrough_ending hs l.ending)
    exact isSome_read?_iff.mpr ⟨word, hword, hthrough.isSome hread⟩
  inside := by
    intro a b hsplit hb prev u
    have hasks : ∀ t rest, l.substitution.scan t = some rest →
        ∃ word ∈ l.words, (keyword? word t).isSome := by
      intro t rest hscan
      obtain ⟨word, hword, w, e, hw, rfl, -⟩ := read?_spec hscan
      exact ⟨word, hword, by rw [keyword?_append hw]; rfl⟩
    refine Substitution.finder_of_startsNone hasks a none prev (fun hin => by cases hin) ?_ hb u
    rw [← hsplit]
    exact hinside

/-- **A rule spares what another one asks for.** -/
theorem Naming.spares (hr : r.Naming) (h : r.clear l) : r.substitution.Spares l.substitution := by
  rw [clear, Bool.and_eq_true] at h
  exact spares_of_named hr.named h.1 h.2

end Rule

/-! ### All rules -/

/-- **No rule brings back what a rule has taken away.** -/
theorem rules_clear : ∀ r ∈ rules, ∀ l ∈ rules, r.clear l := by decide +kernel

theorem not_occursIn_applyRule {r l : Rule} (hr : r ∈ rules) (hl : l ∈ rules) {t : Text}
    (h : l = r ∨ ¬l.OccursIn t) : ¬l.OccursIn (applyRule t r) := by
  have hspares := (rules_naming r hr).spares (rules_clear r hr l hl)
  have hnamed := (rules_naming r hr).named
  rw [← Rule.occurs_iff]
  rcases h with rfl | h
  · exact hspares.not_occurs_self hnamed t
  · exact hspares.not_occurs hnamed (rules_naming l hl).named.scan_nil (Rule.occurs_iff.not.mpr h)

/-- What the rules have taken away so far stays away. -/
theorem not_occursIn_foldl : ∀ (rs : List Rule) (t : Text) (done : Rule → Prop),
    (∀ r ∈ rs, r ∈ rules) → (∀ l ∈ rules, done l → ¬l.OccursIn t) →
      ∀ l ∈ rules, done l ∨ l ∈ rs → ¬l.OccursIn (rs.foldl applyRule t)
  | [], t, done, _, hdone, l, hl, h => hdone l hl (h.resolve_right not_mem_nil)
  | r :: rs, t, done, hrs, hdone, l, hl, h => by
    have hr := hrs r mem_cons_self
    refine not_occursIn_foldl rs (applyRule t r) (fun l => done l ∨ l = r)
      (fun r' hr' => hrs r' (mem_cons_of_mem r hr')) ?_ l hl ?_
    · rintro l hl (hold | rfl)
      · exact not_occursIn_applyRule hr hl (.inr (hdone l hl hold))
      · exact not_occursIn_applyRule hr hl (.inl rfl)
    · rcases h with hold | hmem
      · exact .inl (.inl hold)
      · rcases mem_cons.mp hmem with rfl | hmem
        · exact .inl (.inr rfl)
        · exact .inr hmem

section

variable {p : Profile} (hp : p.functionNames = Profile.builtInFunctionNames)
include hp

/-- **Nothing that a rule asks for is left in a renamed line.** -/
theorem literal_clean (t : Text) : ∀ r ∈ rules, ¬r.OccursIn (literal p t) := by
  intro r hr
  rw [literal_eq hp]
  exact not_occursIn_foldl rules t (fun _ => False) (fun r hr => hr) (fun _ _ h => h.elim) r hr (.inr hr)

theorem literal_eq_self {t : Text} (h : ∀ r ∈ rules, ¬r.OccursIn t) : literal p t = t := by
  rw [literal_eq hp]
  refine List.foldlRecOn (motive := fun u => u = t) rules applyRule rfl fun u hu r hr => ?_
  rw [hu]
  exact Substitution.replaceAll_of_not_occurs (Rule.occurs_iff.not.mpr (h r hr))

theorem literal_idempotent (t : Text) : literal p (literal p t) = literal p t :=
  literal_eq_self hp (literal_clean hp t)

end

end SqlRoutine.Expression
