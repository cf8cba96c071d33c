import Mathlib.Logic.Function.Iterate
import SqlRoutine.Body.Step

/-! # Feeding source lines to the conversion of a body

A body is converted call by call: each call of `step` takes the next source line, and perhaps some of
the lines after it. `Feed.next` is one call together with everything that it leaves behind, and
`(Feed.next p name)^[n]` is what `n` calls come to. A property that one call preserves holds after
any number of calls (`Feed.iterate_next`).

Between two calls others may take lines as well, so a caller need not go on where the last call has
ended. `Feed.run` is a sequence of calls of which each is given a line and lines ahead of its own. -/

namespace SqlRoutine.Body

variable {f : Feed} {P : Feed → Prop} {p : Profile} {name : Text}

/-- Where the conversion of a list of source lines stands. -/
structure Feed where
  state : State := {}
  body : List Text := []
  locals : List Text := []
  /-- The converted lines, in the order in which they were added to the body. -/
  lines : List Converted := []
  notes : List Note := []
  /-- The source lines that have not been taken. -/
  ahead : List Text

namespace Feed

/-- What one call leaves behind that was given the line before `ahead`. -/
def after (f : Feed) (o : Outcome) (ahead : List Text) : Feed where
  state := o.state
  body := appendLines f.body (texts o.lines)
  locals := f.locals ++ o.locals
  lines := f.lines ++ o.lines
  notes := f.notes ++ o.notes
  ahead := ahead.drop o.taken

/-- **One call**: the next source line is converted, if there is one. -/
def next (p : Profile) (name : Text) (f : Feed) : Feed :=
  match f.ahead with
  | [] => f
  | line :: ahead => f.after (step p name f.state line ahead) ahead

theorem next_nil (h : f.ahead = []) : f.next p name = f := by
  unfold next; rw [h]

theorem next_cons {line : Text} {ahead : List Text} (h : f.ahead = line :: ahead) :
    f.next p name = f.after (step p name f.state line ahead) ahead := by
  unfold next; rw [h]

/-- **What every call preserves holds after any number of calls.** -/
theorem iterate_next (hstep : ∀ f line ahead, f.ahead = line :: ahead → P f →
      P (f.after (step p name f.state line ahead) ahead))
    (hf : P f) (n : ℕ) : P ((next p name)^[n] f) := by
  refine Function.Iterate.rec P hf (fun g hg => ?_) n
  cases h : g.ahead with
  | nil => rw [next_nil h]; exact hg
  | cons line ahead => rw [next_cons h]; exact hstep g line ahead h hg

/-! ### Any calls -/

/-- **Calls one after the other**, each with the line that it is given and the lines ahead of it. -/
def run (p : Profile) (name : Text) (f : Feed) (calls : List (Text × List Text)) : Feed :=
  calls.foldl (fun f call => f.after (step p name f.state call.1 call.2) call.2) f

/-- **What every call preserves holds after any calls.** -/
theorem run_induction {calls : List (Text × List Text)}
    (hstep : ∀ f line ahead, (line, ahead) ∈ calls → P f →
      P (f.after (step p name f.state line ahead) ahead)) (hf : P f) : P (f.run p name calls) :=
  List.foldlRecOn calls _ hf fun g hg call hcall => hstep g call.1 call.2 hcall hg

/-! ### The lines ahead -/

theorem ahead_next_suffix (p : Profile) (name : Text) (f : Feed) :
    (f.next p name).ahead <:+ f.ahead.tail := by
  cases h : f.ahead with
  | nil => rw [next_nil h, h]; exact List.nil_suffix
  | cons line ahead => rw [next_cons h]; exact List.drop_suffix ..

theorem ahead_iterate_suffix (p : Profile) (name : Text) (f : Feed) :
    ∀ k, ((next p name)^[k + 1] f).ahead <:+ f.ahead.tail
  | 0 => ahead_next_suffix p name f
  | k + 1 => by
    rw [Function.iterate_succ_apply']
    exact (ahead_next_suffix p name _).trans
      ((List.tail_suffix _).trans (ahead_iterate_suffix p name f k))

/-- **Every call takes a line**, as long as there is one. -/
theorem length_ahead_iterate_le (p : Profile) (name : Text) (f : Feed) :
    ∀ k, ((next p name)^[k] f).ahead.length ≤ f.ahead.length - k
  | 0 => Nat.le_refl _
  | k + 1 => by
    have hle := (ahead_next_suffix p name ((next p name)^[k] f)).length_le
    have hk := length_ahead_iterate_le p name f k
    rw [Function.iterate_succ_apply']
    rw [List.length_tail] at hle
    omega

end Feed

end SqlRoutine.Body
