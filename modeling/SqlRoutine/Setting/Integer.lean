import SqlRoutine.Setting.Value

/-! # Settings that are integers

A setting may write an integer as a number, a truth value or a text. A fraction loses its decimal
places. In a text, blanks may stand around the number, a sign before it, and single underscores
between its digits, which may be of any script. -/

namespace SqlRoutine

/-- The number of digits that may be grouped by single underscores; `value` has been read. -/
def groupedDigits? (value : Nat) : Text → Option Nat
  | [] => some value
  | ['_'] => none
  | '_' :: c :: cs => (decimalValue? c).bind fun d => groupedDigits? (10 * value + d) cs
  | c :: cs => (decimalValue? c).bind fun d => groupedDigits? (10 * value + d) cs

/-- The number of the digits; single underscores can group them. -/
def digits? : Text → Option Nat
  | [] => none
  | c :: cs => (decimalValue? c).bind fun d => groupedDigits? d cs

namespace Text

/-- **The integer that a text writes.** -/
def integer? (t : Text) : Option Int :=
  match t.trim with
  | '-' :: digits => (SqlRoutine.digits? digits).map fun n => -(n : Int)
  | '+' :: digits => (SqlRoutine.digits? digits).map fun n => (n : Int)
  | digits => (SqlRoutine.digits? digits).map fun n => (n : Int)

end Text

namespace Value

/-- **The integer of a value.** -/
def integer? : Value → Option Int
  | int n => some n
  | bool b => some (if b then 1 else 0)
  | fraction m places => some (m.tdiv (Int.pow 10 places))
  | text t => t.integer?
  | _ => none

end Value

end SqlRoutine
