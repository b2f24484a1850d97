/-! Faults: the two ways in which building or laying out a document is refused. -/

namespace CommentFormat

inductive Fault where
  | columnOverflow
  | newlineInText
deriving DecidableEq, Repr

def Fault.message : Fault → String
  | .columnOverflow => "attempt to add with overflow"
  | .newlineInText => "Doc::text must not contain newlines"

def columnLimit : Nat :=
  UInt64.size

/-- Refuses a result on the way to which a column number of `peak` was formed, unless that
number could be kept. -/
def withinColumns {α : Type} (peak : Nat) (result : α) : Except Fault α :=
  if peak < columnLimit then .ok result else .error .columnOverflow

theorem withinColumns_eq_ok_iff {α : Type} (peak : Nat) (result other : α) :
    withinColumns peak result = .ok other ↔ peak < columnLimit ∧ result = other := by
  unfold withinColumns
  split <;> simp [*]

theorem withinColumns_eq_error_iff {α : Type} (peak : Nat) (result : α) (fault : Fault) :
    withinColumns peak result = .error fault ↔
      columnLimit ≤ peak ∧ fault = .columnOverflow := by
  unfold withinColumns
  split
  · simp; omega
  · simp [eq_comm]; omega

end CommentFormat
