import SqlRoutine.Text.Letter

/-! # Lists with keys

Pairs of a key and a value in the order in which the keys first appeared. A key that is set again
keeps its place. -/

namespace SqlRoutine.Keyed

/-- Sets the value of a key: in its place, or at the end. -/
def set {α : Type} (key : Text) (value : α) : List (Text × α) → List (Text × α)
  | [] => [(key, value)]
  | (k, v) :: rest => if k = key then (k, value) :: rest else (k, v) :: set key value rest

end SqlRoutine.Keyed
