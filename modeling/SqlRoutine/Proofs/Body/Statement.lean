import Mathlib.Tactic.SplitIfs
import SqlRoutine.Body.Statement

/-! # What a statement is read from

`Statement.ReadFrom` says once what each kind of statement takes from its line, so that a property of all
statements that are read is one case for each kind (`readFrom_of_ofLine?`). -/

namespace SqlRoutine.Body

open Code Text

/-- **What a statement takes from its line.** -/
inductive Statement.ReadFrom (line : Text) : Statement → Prop where
  | assign {rest named target after value : Text} : keyword? "Set".toList line.trimStart = some rest →
      atName? named = some (target, after) →
      ReadFrom line (.assign line.indent target (splitComment value).1 (splitComment value).2)
  | print {rest value : Text} : word? "Print".toList line.trimStart = some rest →
      ReadFrom line (.print line.indent (splitComment value).1 (splitComment value).2)
  | rowCount {rest target : Text} : word? "SELECT".toList line.trimStart = some rest →
      lastRowCountTarget? rest = some target → ReadFrom line (.rowCount line.indent target)
  | select {rest list modifiers clause : Text} {texts : List Text} {items : List (Text × Text)} :
      keyword? "SELECT".toList line.trimStart = some rest → texts.mapM item? = some items →
      ReadFrom line (.select line.indent modifiers items clause (splitComment list).2)
  | gotoDone {rest : Text} : keyword? "Goto".toList line.trimStart = some rest →
      ReadFrom line (.gotoDone line.indent)
  | breakLoop {rest : Text} : keyword? "Break".toList line.trimStart = some rest →
      ReadFrom line (.breakLoop line.indent)
  | continueLoop {rest : Text} : keyword? "Continue".toList line.trimStart = some rest →
      atStatementEnd rest → ReadFrom line (.continueLoop line)
  | call {rest named parameters : Text} :
      anyKeyword? ["Execute".toList, "Exec".toList] line.trimStart = some rest →
      ReadFrom line (.call line.indent (named.takeWhile isTargetChar) (splitComment parameters).1
        (splitComment parameters).2)

/-- **Every statement is read from its line.** -/
theorem readFrom_of_ofLine? {line : Text} {statement : Statement}
    (h : Statement.ofLine? line = some statement) : statement.ReadFrom line := by
  simp only [Statement.ofLine?, Option.orElse_eq_orElse, Option.orElse_eq_or, Option.or_eq_some_iff, assign?,
    print?, rowCount?, select?, selectLine?, gotoDone?, breakLoop?, continueLoop?, call?, Option.bind_eq_bind,
    Option.bind_eq_some_iff, Option.pure_def] at h
  rcases h with h | ⟨-, h | ⟨-, h | ⟨-, h | ⟨-, h | ⟨-, h | ⟨-, h | ⟨-, h⟩⟩⟩⟩⟩⟩⟩
  · obtain ⟨_, hset, _, _, _, hname, _, _, value, _, ⟨⟩⟩ := h
    exact .assign hset hname
  · obtain ⟨_, hprint, value, _, ⟨⟩⟩ := h
    exact .print hprint
  · obtain ⟨_, hselect, _, htarget, ⟨⟩⟩ := h
    exact .rowCount hselect htarget
  · obtain ⟨_, ⟨_, hselect, _, _, list, _, ⟨⟩⟩, items, hitems, ⟨⟩⟩ := h
    exact .select hselect hitems
  · obtain ⟨_, hgoto, _, _, _, _, h⟩ := h
    split_ifs at h
    cases h
    exact .gotoDone hgoto
  · obtain ⟨_, hbreak, h⟩ := h
    split_ifs at h
    cases h
    exact .breakLoop hbreak
  · obtain ⟨_, hcontinue, h⟩ := h
    split_ifs at h with hend
    cases h
    exact .continueLoop hcontinue hend
  · obtain ⟨_, hexecute, _, _, h⟩ := h
    split_ifs at h
    · simp at h
    · simp only [Option.bind_eq_some_iff] at h
      obtain ⟨parameters, _, ⟨⟩⟩ := h
      exact .call hexecute

end SqlRoutine.Body
