import CommentFormat.Journal
import CommentFormat.Tags.Merge
import CommentFormat.Tags.Packing

/-! Arrangement: the parts of a comment in order, every tag group as packed lines. -/

namespace CommentFormat

inductive ArrangedPart where
  | prose (text : Text)
  | code (text : Text)
  | tagLines (lines : List Text)
deriving DecidableEq, Repr

structure Arrangement where
  parts : List ArrangedPart
  groups : List (List Text)
  notes : List Report
  peak : Nat
deriving DecidableEq, Repr

def Arrangement.empty : Arrangement :=
  ⟨[], [], [], 0⟩

def Arrangement.append (first second : Arrangement) : Arrangement :=
  ⟨first.parts ++ second.parts, first.groups ++ second.groups, first.notes ++ second.notes,
    max first.peak second.peak⟩

def repeatReport (names : List Text) : List Report :=
  match repeatedNames names with
  | [] => []
  | repeated => [.repeatedNames repeated]

def overlongReports (width : Nat) (packing : Packing) : List Report :=
  packing.overlong.map (.overlongName · width)

def arrangePart (width offset : Nat) : Part → Arrangement
  | .prose text => ⟨[.prose text], [], [], 0⟩
  | .code text => ⟨[.code text], [], [], 0⟩
  | .tags names =>
      let packing := Packing.ofNames width offset names
      ⟨[.tagLines packing.lines], [names],
        repeatReport names ++ overlongReports width packing, packing.peak⟩

def arrangeMerged (width offset : Nat) : List Part → Arrangement
  | [] => .empty
  | part :: rest => (arrangePart width offset part).append (arrangeMerged width 0 rest)

def Arrangement.ofParts (width offset : Nat) (parts : List Part) : Arrangement :=
  arrangeMerged width offset (mergeTags parts)

def Arrangement.journal (arrangement : Arrangement) (stage : Stage) : Journal :=
  .entered stage :: arrangement.notes.map .noted

def packNames? (width : Nat) (names : List Text) : Except Fault (List Text × Journal) :=
  let packing := Packing.ofNames width 0 names
  withinColumns packing.peak (packing.lines, (overlongReports width packing).map .noted)

def arrange? (width : Nat) (parts : List Part) : Except Fault (Arrangement × Journal) :=
  let arrangement := Arrangement.ofParts width 0 parts
  withinColumns arrangement.peak
    (arrangement, arrangement.journal (.arranging parts.length width 0))

end CommentFormat
