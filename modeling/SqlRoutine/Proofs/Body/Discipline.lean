import SqlRoutine.Proofs.Body.Feed
import SqlRoutine.Proofs.Body.Line
import SqlRoutine.Proofs.Code.Terminator

/-! # The discipline of a body

Whatever is converted, a body is fit to be written: its lines are tidy (`IsTidy`), and its blank lines
are empty, stand between lines that are not blank and never in pairs (`Disciplined`).

Every line joins a body through `appendLine`, so it is enough that tidying up makes a line tidy
(`isTidy_tidy`) and that one more line keeps the discipline (`Disciplined.appendLine`). That tabs and
trailing blanks go first matters for the terminators: a run of them is only seen at the very end. -/

namespace SqlRoutine.Body

open List

/-! ### Tidy lines -/

/-- **A tidy line** has no tab, does not end in a blank, and does not end in two terminators with
nothing but blanks between them. -/
structure IsTidy (t : Text) : Prop where
  no_tab : '\t' ∉ t
  no_blank_end : ∀ c, t.getLast? = some c → isBlank c = false
  one_terminator : ∀ start blanks : Text, blanks.isBlank → t ≠ start ++ ';' :: blanks ++ [';']

theorem not_tab_mem_expandTabs (t : Text) : '\t' ∉ t.expandTabs := by
  intro htab
  have hin := (Text.trimEnd_isPrefix _).subset htab
  obtain ⟨c, -, hc⟩ := mem_flatMap.mp hin
  split_ifs at hc with htab'
  · simp at hc
  · exact htab' (mem_singleton.mp hc).symm

theorem getLast?_trimEnd (t : Text) (c : Char) (h : t.trimEnd.getLast? = some c) :
    isBlank c = false := by
  have hne : t.trimEnd ≠ [] := by
    intro hnil
    rw [hnil] at h
    cases h
  have hlast := rdropWhile_last_not isBlank t hne
  rw [getLast?_eq_some_getLast hne] at h
  rw [← Option.some.inj h]
  exact Bool.eq_false_iff.mpr hlast

/-- **Tidying up makes a line tidy.** -/
theorem isTidy_tidy (line : Text) : IsTidy (tidy line) where
  no_tab htab := by
    rcases Code.mem_collapseTerminators htab with htab | htab
    · exact not_tab_mem_expandTabs line htab
    · cases htab
  no_blank_end := Code.getLast?_collapseTerminators (getLast?_trimEnd _)
  one_terminator start blanks hblanks heq := by
    have hle := Code.countTerminators_collapseTerminators line.expandTabs
    have hrun : (';' :: blanks ++ [';']).all Code.isTerminatorOrBlank := by
      have hall : blanks.all Code.isTerminatorOrBlank := all_eq_true.mpr fun c hc => by
        rw [Code.isTerminatorOrBlank, Text.isBlank_eq_true_iff.mp hblanks c hc, Bool.or_true]
      rw [all_append, all_cons, hall]
      rfl
    have htwo : 2 ≤ Code.countTerminators (tidy line) := by
      rw [heq, append_assoc, Code.countTerminators_append hrun, cons_append,
        count_cons_self, List.count_append, count_singleton_self]
      omega
    rw [tidy] at htwo
    omega

/-! ### Blank lines -/

/-- **A body in good order**: tidy lines, of which the blank ones are empty, are not the first and do
not follow each other. -/
structure Disciplined (body : List Text) : Prop where
  tidy : ∀ t ∈ body, IsTidy t
  blank_empty : ∀ t ∈ body, t.isBlank → t = []
  blank_not_first : ∀ t, body.head? = some t → t.isBlank = false
  blank_not_twice : body.IsChain fun above below => above.isBlank → below.isBlank = false

theorem Disciplined.nil : Disciplined [] where
  tidy := nofun
  blank_empty := nofun
  blank_not_first := nofun
  blank_not_twice := .nil

/-- A tidy line joins a body that is not empty, or it is not blank. -/
theorem Disciplined.concat {body : List Text} (h : Disciplined body) {t : Text} (ht : IsTidy t)
    (hempty : t.isBlank → t = []) (hlast : t.isBlank →
      ∃ last, body.getLast? = some last ∧ last.isBlank = false) : Disciplined (body ++ [t]) where
  tidy := forall_mem_append.mpr ⟨h.tidy, forall_mem_singleton.mpr ht⟩
  blank_empty := forall_mem_append.mpr ⟨h.blank_empty, forall_mem_singleton.mpr hempty⟩
  blank_not_first first hfirst := by
    cases body with
    | cons line lines => exact h.blank_not_first first hfirst
    | nil =>
      obtain rfl := Option.some.inj hfirst
      rw [← Bool.not_eq_true]
      intro hblank
      obtain ⟨last, hnone, -⟩ := hlast hblank
      cases hnone
  blank_not_twice := by
    refine h.blank_not_twice.append (isChain_singleton t) ?_
    intro above habove below hbelow hblank
    obtain rfl : t = below := by simpa using hbelow
    rw [← Bool.not_eq_true]
    intro hblank'
    obtain ⟨last, hsome, hvisible⟩ := hlast hblank'
    rw [Option.mem_def, hsome] at habove
    obtain rfl := Option.some.inj habove
    rw [hvisible] at hblank
    cases hblank

theorem isTidy_nil : IsTidy [] where
  no_tab := nofun
  no_blank_end := nofun
  one_terminator start blanks _ heq := by simp at heq

/-- **One more line keeps the discipline.** -/
theorem Disciplined.appendLine {body : List Text} (h : Disciplined body) (line : Text) :
    Disciplined (appendLine body line) := by
  unfold Body.appendLine
  dsimp only
  split_ifs with hblank
  · cases hlast : body.getLast? with
    | none => exact h
    | some last =>
      dsimp only
      split_ifs with hlastBlank
      · exact h
      · exact h.concat isTidy_nil (fun _ => rfl)
          fun _ => ⟨last, hlast, Bool.eq_false_iff.mpr hlastBlank⟩
  · exact h.concat (isTidy_tidy line) (fun hb => absurd hb hblank) fun hb => absurd hb hblank

theorem Disciplined.appendLines {body : List Text} (h : Disciplined body) (lines : List Text) :
    Disciplined (appendLines body lines) :=
  List.foldlRecOn lines _ h fun _ hbody line _ => hbody.appendLine line

/-- **The discipline of a body.** With every profile, from every state and after any calls, a body that
was empty at first is in good order: no line has a tab, ends in a blank, or ends in two terminators;
a blank line is empty, is not the first and does not follow another one. -/
theorem run_disciplined (p : Profile) (name : Text) (s : State) (calls : List (Text × List Text)) :
    Disciplined (Feed.run p name { state := s, ahead := [] } calls).body :=
  Feed.run_induction (P := fun f => Disciplined f.body)
    (fun f line ahead _ hf => hf.appendLines (texts (step p name f.state line ahead).lines))
    Disciplined.nil

end SqlRoutine.Body
