import CommentFormat.Fault
import CommentFormat.Text.Lines

/-! Documents: text and line breaks, laid out at a width that is chosen later. -/

namespace CommentFormat

inductive Doc where
  | nil
  | text (content : Text)
  | hardLine
  | softLine
  | concat (docs : List Doc)
  | nest (indent : Nat) (inner : Doc)
  | group (inner : Doc)
  | fill (items : List Doc)
deriving Repr

instance : Inhabited Doc :=
  ⟨.nil⟩

def Doc.join (docs : List Doc) (separator : Doc) : Doc :=
  .concat (docs.intersperse separator)

def Doc.lines (lines : List Text) : Doc :=
  Doc.join (lines.map .text) .hardLine

def Doc.words (words : List Text) : Doc :=
  .fill (words.map .text)

def Doc.text? (content : Text) : Except Fault Doc :=
  if onOneLine content then .ok (.text content) else .error .newlineInText

def Doc.lines? (lines : List Text) : Except Fault Doc :=
  if lines.all onOneLine then .ok (Doc.lines lines) else .error .newlineInText

def Doc.words? (words : List Text) : Except Fault Doc :=
  if words.all onOneLine then .ok (Doc.words words) else .error .newlineInText

def addColumns (first second : Option Nat) : Option Nat :=
  first.bind fun width => second.map (width + ·)

mutual

def Doc.flatColumns : Doc → Option Nat
  | .nil => some 0
  | .text content => some (columns content)
  | .hardLine => none
  | .softLine => some 1
  | .concat docs => flatColumnsAll docs
  | .nest _ inner => inner.flatColumns
  | .group inner => inner.flatColumns
  | .fill items => addColumns (some (items.length - 1)) (flatColumnsAll items)

def flatColumnsAll : List Doc → Option Nat
  | [] => some 0
  | doc :: rest => addColumns doc.flatColumns (flatColumnsAll rest)

end

mutual

/-- The largest sum formed while the flat width is added up from left to right, as far as
the first document that must break. -/
def Doc.flatPeak : Doc → Nat
  | .nil => 0
  | .text _ => 0
  | .hardLine => 0
  | .softLine => 0
  | .concat docs => flatPeakFrom 0 docs
  | .nest _ inner => inner.flatPeak
  | .group inner => inner.flatPeak
  | .fill items => flatPeakFrom (items.length - 1) items

def flatPeakFrom (total : Nat) : List Doc → Nat
  | [] => total
  | doc :: rest =>
      match doc.flatColumns with
      | none => max total doc.flatPeak
      | some width => max doc.flatPeak (flatPeakFrom (total + width) rest)

end

def Doc.flatColumns? (doc : Doc) : Except Fault (Option Nat) :=
  withinColumns doc.flatPeak doc.flatColumns

theorem flatColumnsAll_append (first second : List Doc) :
    flatColumnsAll (first ++ second) =
      addColumns (flatColumnsAll first) (flatColumnsAll second) := by
  induction first with
  | nil => cases widths : flatColumnsAll second <;> simp [flatColumnsAll, addColumns, widths]
  | cons doc rest ih =>
      simp only [List.cons_append, flatColumnsAll, ih]
      cases doc.flatColumns <;> cases flatColumnsAll rest <;> cases flatColumnsAll second <;>
        simp [addColumns, Nat.add_assoc]

end CommentFormat
