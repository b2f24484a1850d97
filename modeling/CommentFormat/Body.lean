import CommentFormat.Body.Block
import CommentFormat.Fault
import CommentFormat.Journal

/-! The body of a comment: the text between its delimiters, read line by line into parts. -/

namespace CommentFormat

def bodyLines (baseIndent : Nat) (body : Text) : List Line :=
  (lines body).map fun line => Line.read baseIndent (detab line)

def bodyParts (baseIndent : Nat) (body : Text) : List Part :=
  gather none (bodyLines baseIndent body)

/-- The column at which code starts is formed for every line that is not blank. -/
def Line.read? (baseIndent : Nat) (line : Text) : Except Fault Line :=
  if isBlank line then .ok .blank
  else withinColumns (baseIndent + indentStep) (Line.read baseIndent line)

def bodyLines? (baseIndent : Nat) (body : Text) : Except Fault (List Line) :=
  (lines body).mapM fun line => Line.read? baseIndent (detab line)

theorem Line.read?_ok (baseIndent : Nat) (line : Text)
    (fits : isBlank line = true ∨ baseIndent + indentStep < columnLimit) :
    Line.read? baseIndent line = .ok (Line.read baseIndent line) := by
  unfold Line.read?
  by_cases blank : isBlank line = true
  · rw [if_pos blank, (Line.read_eq_blank_iff baseIndent line).mpr blank]
  · rw [if_neg blank, withinColumns_eq_ok_iff]
    exact ⟨fits.resolve_left blank, rfl⟩

theorem Line.read?_error (baseIndent : Nat) (line : Text) (shown : isBlank line = false)
    (beyond : columnLimit ≤ baseIndent + indentStep) :
    Line.read? baseIndent line = .error .columnOverflow := by
  rw [Line.read?, if_neg (by simp [shown]), withinColumns_eq_error_iff]
  exact ⟨beyond, rfl⟩

theorem bodyLines?_ok (baseIndent : Nat) (body : Text)
    (fits : ∀ line ∈ lines body, isBlank line = true ∨ baseIndent + indentStep < columnLimit) :
    bodyLines? baseIndent body = .ok (bodyLines baseIndent body) := by
  unfold bodyLines? bodyLines
  generalize lines body = source at fits ⊢
  induction source with
  | nil => rfl
  | cons line rest ih =>
      have here := Line.read?_ok baseIndent (detab line)
        (by simpa [isBlank_detab] using fits line (by simp))
      rw [List.mapM_cons, here, ih fun other member => fits other (by simp [member])]
      rfl

theorem bodyLines?_error (baseIndent : Nat) (body : Text)
    (shown : ∃ line ∈ lines body, isBlank line = false)
    (beyond : columnLimit ≤ baseIndent + indentStep) :
    bodyLines? baseIndent body = .error .columnOverflow := by
  unfold bodyLines?
  generalize lines body = source at shown ⊢
  induction source with
  | nil => simp at shown
  | cons line rest ih =>
      rw [List.mapM_cons]
      by_cases blank : isBlank line = true
      · have here := Line.read?_ok baseIndent (detab line) (.inl (by rwa [isBlank_detab]))
        have behind : ∃ other ∈ rest, isBlank other = false := by simpa [blank] using shown
        rw [here, ih behind]
        rfl
      · rw [Line.read?_error baseIndent (detab line) (by simpa [isBlank_detab] using blank) beyond]
        rfl

structure Parsed (kind : Kind) where
  comment : Comment kind
  journal : Journal
deriving DecidableEq, Repr

def parse? (kind : Kind) (baseIndent : Nat) (body : Text) : Except Fault (Parsed kind) := do
  let read ← bodyLines? baseIndent body
  let comment := Comment.ofParts kind (gather none read)
  return ⟨comment, [.entered (.parsing kind (byteCount body) baseIndent),
    .noted (.parsed comment.size)]⟩

end CommentFormat
