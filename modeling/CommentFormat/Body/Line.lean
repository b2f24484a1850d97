import CommentFormat.Body.Marks
import CommentFormat.Page

/-! Lines of a body: their indentation in columns, and what each line belongs to. -/

namespace CommentFormat

def isIndent (character : Char) : Bool :=
  character = ' ' || character = '\t'

/-- Replaces the tabs that a line starts with, from `column` on, by spaces up to the next
tab stop. -/
def detabFrom (column : Nat) : Text → Text
  | [] => []
  | character :: rest =>
      if character = ' ' then ' ' :: detabFrom (column + 1) rest
      else if character = '\t' then
        let gap := indentStep - column % indentStep
        List.replicate gap ' ' ++ detabFrom (column + gap) rest
      else character :: rest

def detab? (line : Text) : Option Text :=
  if '\t' ∈ line.takeWhile isIndent then some (detabFrom 0 line) else none

def detab (line : Text) : Text :=
  (detab? line).getD line

theorem isBlank_replicate_append (count : Nat) (text : Text) :
    isBlank (List.replicate count ' ' ++ text) = isBlank text := by
  induction count with
  | zero => simp
  | succ count ih =>
      have space : isSpace ' ' = true := by decide
      simp [List.replicate_succ, space, ih]

theorem isBlank_detabFrom (column : Nat) (line : Text) :
    isBlank (detabFrom column line) = isBlank line := by
  induction line generalizing column with
  | nil => rfl
  | cons character rest ih =>
      by_cases space : character = ' '
      · simp [detabFrom, space, ih]
      · by_cases tab : character = '\t'
        · have white : isSpace '\t' = true := by decide
          simp [detabFrom, tab, isBlank_replicate_append, ih, white]
        · simp [detabFrom, space, tab]

theorem isBlank_detab (line : Text) : isBlank (detab line) = isBlank line := by
  unfold detab detab?
  split
  · exact isBlank_detabFrom 0 line
  · rfl

inductive Line where
  | blank
  | tags (rest : Text)
  | code (text : Text)
  | prose (text : Text)
deriving DecidableEq, Repr

def afterTagWord? (content : Text) : Option Text :=
  match tagWord.isPrefixOf? content with
  | none => none
  | some rest => if rest.head?.all isSpace then some rest else none

def indentOf (line : Text) : Nat :=
  (line.takeWhile (· = ' ')).length

/-- Reads a line whose indentation is in spaces. A line belongs to code if it is indented a
whole step past the margin. -/
def Line.read (baseIndent : Nat) (line : Text) : Line :=
  if isBlank line then .blank
  else if baseIndent + indentStep ≤ indentOf line then
    .code (line.drop (baseIndent + indentStep))
  else
    match afterTagWord? (line.drop (indentOf line)) with
    | some rest => .tags rest
    | none => .prose (line.drop (min (indentOf line) baseIndent))

theorem Line.read_eq_blank_iff (baseIndent : Nat) (line : Text) :
    Line.read baseIndent line = .blank ↔ isBlank line = true := by
  unfold Line.read
  split
  · next blank => simp [blank]
  · next shown =>
      split
      · simp [shown]
      · split <;> simp [shown]

def tagNames (rest : Text) : List Text :=
  ((rest.splitOn ',').map trim).filter fun name => !name.isEmpty

end CommentFormat
