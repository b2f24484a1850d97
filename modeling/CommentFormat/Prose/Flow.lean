import CommentFormat.Layout.Doc
import CommentFormat.Prose.Passage
import CommentFormat.Text.Words

/-! Flow: prose as a document that breaks between words wherever the page asks for it. -/

namespace CommentFormat

def isNumberMark (word : Text) : Bool :=
  let digits := word.dropLast
  (word.getLast? = some '.' || word.getLast? = some ')') &&
    !digits.isEmpty && digits.all Char.isDigit

/-- A word that would be read as something else than prose at the start of a line. -/
def mustFollow (word : Text) : Bool :=
  word = tagWord || fence.isPrefixOf word || (bullets.any fun bullet => word = [bullet]) ||
    ['#'].isPrefixOf word || ['>'].isPrefixOf word || isNumberMark word

/-- Words as items that a break may stand between: a word that cannot lead a line
stays with the word before it. -/
def itemsFrom (item : Text) : List Text → List Text
  | [] => [item]
  | word :: rest =>
      if mustFollow word then itemsFrom (item ++ ' ' :: word) rest
      else item :: itemsFrom word rest

def runItems (lines : List Text) : List Text :=
  match lines.flatMap words with
  | [] => []
  | first :: rest => itemsFrom (leadingSpace (lines.headD []) ++ first) rest

def Passage.doc : Passage → Doc
  | .blank => .nil
  | .run lines => .words (runItems lines)
  | .heading line => .text (trimEnd line)
  | .fenced lines => .lines lines

def flowProse (text : Text) : Doc :=
  .join ((passages text).map Passage.doc) .hardLine

end CommentFormat
