import Mathlib.Tactic
import SqlRoutine.LineSource

/-! # A source is a list of lines

To its caller a source is nothing but the list of the lines that it has still to deliver, `remaining`.
The buffer, the unread lines and the end that has been seen do not show: filling the buffer keeps the
remaining lines (`remaining_fill`), and every call answers as the list does and leaves the list that
it should (`answer_eq_ideal`). So **a source refines a list over every sequence of calls**
(`answers_eq_ideal`). -/

namespace SqlRoutine.LineSource

open List

/-! ### Filling the buffer -/

theorem readPhysical_eq (s : LineSource) :
    (∃ line s', s.readPhysical = (some (chomp line), s') ∧ s.unread = line :: s'.unread ∧
      s'.buffer = s.buffer) ∨
    ∃ s', s.readPhysical = (none, s') ∧ s.unread = [] ∧ s'.unread = [] ∧ s'.buffer = s.buffer := by
  unfold readPhysical
  split
  · next _ hend =>
    have hunread := s.unread_of_exhausted hend
    exact .inr ⟨s, rfl, hunread, hunread, rfl⟩
  · next hunread => exact .inr ⟨_, rfl, hunread, rfl, rfl⟩
  · next line rest _ hunread => exact .inl ⟨line, _, rfl, hunread, rfl⟩

/-- **The loop that fills the buffer** moves lines from one end of the source to the other. -/
theorem fillMore_eq (count : ℕ) (s : LineSource) :
    (fillMore count s).buffer = s.buffer ++ (s.unread.take count).map chomp ∧
      (fillMore count s).unread = s.unread.drop count := by
  induction count generalizing s with
  | zero => simp [fillMore]
  | succ count ih =>
    rcases readPhysical_eq s with ⟨line, s', hread, hunread, hbuffer⟩ |
      ⟨s', hread, hunread, hunread', hbuffer⟩
    · obtain ⟨hb, hu⟩ := ih { s' with buffer := s'.buffer ++ [chomp line] }
      simp only [fillMore, hread]
      rw [hb, hu, hunread, hbuffer]
      simp
    · simp only [fillMore, hread]
      rw [hunread, hunread', hbuffer]
      simp

theorem buffer_fill (s : LineSource) (count : ℕ) :
    (s.fill count).buffer = s.buffer ++ (s.unread.take (count - s.buffer.length)).map chomp :=
  (fillMore_eq _ s).1

theorem remaining_fill (s : LineSource) (count : ℕ) : (s.fill count).remaining = s.remaining := by
  unfold remaining fill
  rw [(fillMore_eq _ s).1, (fillMore_eq _ s).2, append_assoc, ← map_append,
    take_append_drop]

/-- **The buffer has been filled far enough** for the next `count` lines. -/
theorem take_buffer_fill (s : LineSource) (count : ℕ) :
    (s.fill count).buffer.take count = s.remaining.take count := by
  rw [buffer_fill, remaining, take_append, take_append, map_take, take_take,
    Nat.min_self]

/-! ### Single calls -/

theorem read_eq (s : LineSource) :
    s.read.1 = s.remaining.head? ∧ s.read.2.remaining = s.remaining.tail := by
  have hremaining := remaining_fill s 1
  have hhead : (s.fill 1).buffer.head? = s.remaining.head? := by
    have htake := congrArg List.head? (take_buffer_fill s 1)
    rwa [head?_take, head?_take] at htake
  unfold read
  cases hbuffer : (s.fill 1).buffer with
  | nil =>
    -- nothing is left: an empty buffer after filling means that the list is empty
    rw [hbuffer] at hhead
    have hnil : s.remaining = [] := head?_eq_none_iff.mp hhead.symm
    exact ⟨by rw [hnil]; rfl, by rw [hremaining, hnil]; rfl⟩
  | cons line rest =>
    rw [hbuffer] at hhead
    refine ⟨hhead, ?_⟩
    rw [← hremaining, remaining, remaining, hbuffer]
    rfl

theorem peek_eq (s : LineSource) (count : ℕ) :
    (s.peek count).1 = s.remaining.take count ∧ (s.peek count).2.remaining = s.remaining :=
  ⟨take_buffer_fill s count, remaining_fill s count⟩

theorem peekLine_eq (s : LineSource) (offset : ℕ) :
    (s.peekLine offset).1 = .ok s.remaining[offset]? ∧
      (s.peekLine offset).2.remaining = s.remaining := by
  obtain ⟨hlines, hremaining⟩ := peek_eq s (offset + 1)
  have hnonneg : ¬(offset : ℤ) < 0 := by omega
  unfold peekLine
  rw [Nat.cast_add, Nat.cast_one] at hlines hremaining
  dsimp only
  rw [if_neg hnonneg, hlines, Int.toNat_natCast]
  exact ⟨by rw [getElem?_take_of_lt (by omega)], hremaining⟩

/-! ### Sequences of calls -/

/-- A call of a source. -/
inductive Call where
  | read
  | dequeue
  | peek (count : ℕ)
  | peekLine (offset : ℕ)
  deriving DecidableEq, Repr

/-- The call delivers a line. -/
def Call.delivers : Call → Bool
  | .read | .dequeue => true
  | .peek _ | .peekLine _ => false

/-- What a call answers. -/
inductive Answer where
  | line (line : Option Text)
  | lines (lines : List Text)
  | fault (fault : Fault)

/-- A call of a source: its answer and the source after it. -/
def answer (s : LineSource) : Call → Answer × LineSource
  | .read => (.line s.read.1, s.read.2)
  | .dequeue => (.line s.dequeue.1, s.dequeue.2)
  | .peek count => (.lines (s.peek count).1, (s.peek count).2)
  | .peekLine offset =>
    (match (s.peekLine offset).1 with
      | .ok line => .line line
      | .error fault => .fault fault, (s.peekLine offset).2)

/-- **The same call of a plain list of lines**: the first line is delivered and taken off, and to look
ahead changes nothing. -/
def ideal (lines : List Text) : Call → Answer × List Text
  | .read | .dequeue => (.line lines.head?, lines.tail)
  | .peek count => (.lines (lines.take count), lines)
  | .peekLine offset => (.line lines[offset]?, lines)

/-- The answers to one call after the other, and what is there after the last one. -/
def answers {σ : Type} (answer : σ → Call → Answer × σ) (s : σ) : List Call → List Answer × σ
  | [] => ([], s)
  | call :: calls =>
    let rest := answers answer (answer s call).2 calls
    ((answer s call).1 :: rest.1, rest.2)

/-- **One call** answers as the list of remaining lines does, and leaves what the list leaves. -/
theorem answer_eq_ideal (s : LineSource) (call : Call) :
    (s.answer call).1 = (ideal s.remaining call).1 ∧
      (s.answer call).2.remaining = (ideal s.remaining call).2 := by
  cases call with
  | read => exact ⟨congrArg Answer.line (read_eq s).1, (read_eq s).2⟩
  | dequeue => exact ⟨congrArg Answer.line (read_eq s).1, (read_eq s).2⟩
  | peek count => exact ⟨congrArg Answer.lines (peek_eq s count).1, (peek_eq s count).2⟩
  | peekLine offset =>
    obtain ⟨hline, hremaining⟩ := peekLine_eq s offset
    refine ⟨?_, hremaining⟩
    simp only [answer, hline, ideal]

/-- A run of calls answers as the list does. -/
theorem answers_remaining (s : LineSource) (calls : List Call) :
    (answers answer s calls).1 = (answers ideal s.remaining calls).1 ∧
      (answers answer s calls).2.remaining = (answers ideal s.remaining calls).2 := by
  induction calls generalizing s with
  | nil => exact ⟨rfl, rfl⟩
  | cons call calls ih =>
    obtain ⟨hanswer, hremaining⟩ := answer_eq_ideal s call
    obtain ⟨hanswers, hlast⟩ := ih (s.answer call).2
    rw [hremaining] at hanswers hlast
    simp only [answers]
    exact ⟨by rw [hanswer, hanswers], hlast⟩

/-! ### Delivered lines -/

/-- The lines that the answers to calls delivered. -/
def delivered : List Call → List Answer → List Text
  | call :: calls, .line (some line) :: answers =>
    if call.delivers then line :: delivered calls answers else delivered calls answers
  | _ :: calls, _ :: answers => delivered calls answers
  | _, _ => []

/-- **The delivered lines and those that are left** are the lines that there were. -/
theorem delivered_ideal (lines : List Text) (calls : List Call) :
    delivered calls (answers ideal lines calls).1 ++ (answers ideal lines calls).2 = lines := by
  induction calls generalizing lines with
  | nil => rfl
  | cons call calls ih =>
    cases call with
    | read =>
      cases lines with
      | nil => exact ih []
      | cons line lines => exact congrArg (line :: ·) (ih lines)
    | dequeue =>
      cases lines with
      | nil => exact ih []
      | cons line lines => exact congrArg (line :: ·) (ih lines)
    | peek count => exact ih lines
    | peekLine offset =>
      cases hline : lines[offset]? with
      | none => simpa [answers, ideal, delivered, hline] using ih lines
      | some line => simpa [answers, ideal, delivered, hline, Call.delivers] using ih lines

/-- To look ahead leaves a list as it is. -/
theorem answers_ideal_of_peeks (lines : List Text) {peeks : List Call}
    (h : ∀ call ∈ peeks, call.delivers = false) : (answers ideal lines peeks).2 = lines := by
  induction peeks with
  | nil => rfl
  | cons call peeks ih =>
    obtain ⟨hcall, hpeeks⟩ := forall_mem_cons.mp h
    cases call with
    | read => cases hcall
    | dequeue => cases hcall
    | peek count => exact ih hpeeks
    | peekLine offset => exact ih hpeeks

/-- **A source refines a list.** Whatever physical lines it is made of, and however reading, dequeuing
and looking ahead follow upon each other, also behind the end: every answer is that of the plain list
of the lines without their line ends, and what is left is what is left of the list. So the delivered
lines are the lines of the list in their order, none lost and none twice, and calls that only look
ahead change no answer to the calls after them. -/
theorem answers_eq_ideal (lines : List Text) (calls : List Call) :
    let source := answers answer (ofLines lines) calls
    let list := answers ideal (lines.map chomp) calls
    source.1 = list.1 ∧ source.2.remaining = list.2 ∧
      delivered calls source.1 ++ source.2.remaining = lines.map chomp ∧
      ∀ peeks later : List Call, (∀ call ∈ peeks, call.delivers = false) →
        (answers answer (answers answer source.2 peeks).2 later).1 =
          (answers answer source.2 later).1 := by
  intro source list
  have hstart : (ofLines lines).remaining = lines.map chomp := rfl
  obtain ⟨hanswers, hleft⟩ := answers_remaining (ofLines lines) calls
  rw [hstart] at hanswers hleft
  refine ⟨hanswers, hleft, ?_, fun peeks later hpeeks => ?_⟩
  · rw [hanswers, hleft]
    exact delivered_ideal _ calls
  · have hsame : (answers answer source.2 peeks).2.remaining = source.2.remaining :=
      (answers_remaining source.2 peeks).2.trans (answers_ideal_of_peeks _ hpeeks)
    rw [(answers_remaining _ later).1, (answers_remaining _ later).1, hsame]

end SqlRoutine.LineSource
