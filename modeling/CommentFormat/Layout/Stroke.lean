import CommentFormat.Text.Space

/-! Strokes: what laying out hands to whatever receives the output, in order. -/

namespace CommentFormat

inductive Stroke where
  | text (content : Text)
  | newline
  | spaces (count : Nat)
deriving DecidableEq, Repr

def Stroke.written : Stroke → Text
  | .text content => content
  | .newline => ['\n']
  | .spaces count => List.replicate count ' '

def written (strokes : List Stroke) : Text :=
  strokes.flatMap Stroke.written

@[simp] theorem written_nil : written [] = [] := rfl

@[simp] theorem written_cons (stroke : Stroke) (rest : List Stroke) :
    written (stroke :: rest) = stroke.written ++ written rest := by
  simp [written]

@[simp] theorem written_append (first second : List Stroke) :
    written (first ++ second) = written first ++ written second := by
  simp [written]

end CommentFormat
