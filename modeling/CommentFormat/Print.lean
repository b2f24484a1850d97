import CommentFormat.Layout.Machine
import CommentFormat.Prose.Flow
import CommentFormat.Tags.Arrangement

/-! Printing: a comment between its delimiters, one blank line between each two parts. -/

namespace CommentFormat

def openLead : Text :=
  openMark ++ [' ']

def margin : Text :=
  List.replicate indentStep ' '

def lineDoc (line : Text) : Doc :=
  if line = [] then .nil else .text line

/-- The first line brings its margin along, since nothing has moved in the line it starts on. -/
def verbatimLines : List Text → List Doc
  | [] => []
  | first :: rest => (if first = [] then .nil else .text (margin ++ first)) :: rest.map lineDoc

def verbatimDoc (text : Text) : Doc :=
  .nest indentStep (.join (verbatimLines (text.splitOn '\n')) .hardLine)

def ArrangedPart.doc : ArrangedPart → Doc
  | .prose text => flowProse text
  | .code text => verbatimDoc text
  | .tagLines lines => .lines lines

def ArrangedPart.breaksLine : ArrangedPart → Bool
  | .prose _ => false
  | .code _ => false
  | .tagLines lines => !lines.all onOneLine

def blankLine : Doc :=
  .concat [.hardLine, .hardLine]

def Arrangement.doc (arrangement : Arrangement) : Doc :=
  .concat [.text openLead, .join (arrangement.parts.map ArrangedPart.doc) blankLine, .hardLine,
    .text closeMark]

def Comment.arrangement {kind : Kind} (comment : Comment kind) (width : Nat) : Arrangement :=
  .ofParts width (columns openLead) comment.parts

def Comment.drawn {kind : Kind} (comment : Comment kind) (width : Nat) : Drawn :=
  (comment.arrangement width).doc.lay width

structure Printed where
  text : Text
  groups : List (List Text)
  journal : Journal
deriving DecidableEq, Repr

def Comment.printed {kind : Kind} (comment : Comment kind) (width : Nat) : Printed :=
  let arrangement := comment.arrangement width
  ⟨written (comment.drawn width).strokes, arrangement.groups,
    .entered (.printing kind width comment.size) ::
      arrangement.journal (.arranging comment.size width (columns openLead)) ++
      [.entered (.rendering width)]⟩

/-- Names are packed before they are looked at, and looked at before anything is drawn. -/
def Comment.print? {kind : Kind} (comment : Comment kind) (page : Page) : Except Fault Printed :=
  let arrangement := comment.arrangement page.width
  if columnLimit ≤ arrangement.peak then .error .columnOverflow
  else if arrangement.parts.any ArrangedPart.breaksLine then .error .newlineInText
  else withinColumns (comment.drawn page.width).peak (comment.printed page.width)

end CommentFormat
