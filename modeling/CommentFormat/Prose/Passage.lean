import CommentFormat.Body.Marks
import CommentFormat.Text.Lines

/-! Passages of prose: runs of lines that flow together, headings, fenced blocks, and the blank
lines between them. -/

namespace CommentFormat

def fence : Text :=
  ['\x60', '\x60', '\x60']

def isFence (line : Text) : Bool :=
  fence.isPrefixOf (trimStart line)

def isHeading (line : Text) : Bool :=
  ['#'].isPrefixOf (trimStart line)

def isQuote (line : Text) : Bool :=
  ['>'].isPrefixOf (trimStart line)

def bullets : List Char :=
  ['-', '*', '+']

def isBulletItem (line : Text) : Bool :=
  bullets.any fun bullet => [bullet, ' '].isPrefixOf (trimStart line)

def isNumberedItem (line : Text) : Bool :=
  let content := trimStart line
  let digits := content.takeWhile Char.isDigit
  let mark := content.dropWhile Char.isDigit
  !digits.isEmpty && (['.', ' '].isPrefixOf mark || [')', ' '].isPrefixOf mark)

/-- Such a line never goes on with the run before it. -/
def standsApart (line : Text) : Bool :=
  isBulletItem line || isHeading line || isQuote line || isNumberedItem line

inductive Passage where
  | blank
  | run (lines : List Text)
  | heading (line : Text)
  | fenced (lines : List Text)
deriving DecidableEq, Repr

def continuesRun (line : Text) : Bool :=
  !(isFence line || isBlank line || standsApart line)

/-- A scan of prose: the passages found so far, the lines of an open run, and those of an open
fence. -/
structure Scan where
  found : List Passage
  run : List Text
  fence : Option (List Text)
deriving DecidableEq, Repr

def Scan.closeRun (scan : Scan) : Scan :=
  if scan.run.isEmpty then scan
  else { scan with found := scan.found ++ [.run scan.run], run := [] }

/-- Blank lines above all passages do not count, and neither does one below another. -/
def withBlank (found : List Passage) : List Passage :=
  match found.getLast? with
  | none | some .blank => found
  | some _ => found ++ [.blank]

def withoutBlanks (found : List Passage) : List Passage :=
  (found.reverse.dropWhile (· = .blank)).reverse

def Scan.take (scan : Scan) (line : Text) : Scan :=
  match scan.fence with
  | some inner =>
      if isFence line then
        { scan with found := scan.found ++ [.fenced (inner ++ [line])], fence := none }
      else { scan with fence := some (inner ++ [line]) }
  | none =>
      let ready := if continuesRun line then scan else scan.closeRun
      if isFence line then { ready with fence := some [line] }
      else if isBlank line then { ready with found := withBlank ready.found }
      else if isHeading line then { ready with found := ready.found ++ [.heading line] }
      else { ready with run := ready.run ++ [line] }

def Scan.finish (scan : Scan) : List Passage :=
  let ended := scan.closeRun
  withoutBlanks (ended.found ++ (ended.fence.map .fenced).toList)

def Scan.complete (scan : Scan) (lines : List Text) : List Passage :=
  (lines.foldl Scan.take scan).finish

def passages (text : Text) : List Passage :=
  Scan.complete ⟨[], [], none⟩ (lines text)

end CommentFormat
