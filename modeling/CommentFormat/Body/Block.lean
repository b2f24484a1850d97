import CommentFormat.Body.Line
import CommentFormat.Comment
import CommentFormat.Text.Lines

/-! Blocks: lines of one sort that follow each other and become one part. -/

namespace CommentFormat

inductive Block where
  | prose (lines : List Text)
  | code (lines : List Text)
  | tags (names : List Text)
deriving DecidableEq, Repr

def blockText (lines : List Text) : Text :=
  joinLines (lines.reverse.dropWhile List.isEmpty).reverse

def Block.close : Block → Part
  | .prose lines => .prose (blockText lines)
  | .code lines => .code (blockText lines)
  | .tags names => .tags names

def Block.opening? : Line → Option Block
  | .blank => none
  | .tags rest => some (.tags (tagNames rest))
  | .code text => some (.code [text])
  | .prose text => some (.prose [text])

/-- A block goes on with lines of its own sort, and prose and code with blank lines too. -/
def Block.extend? : Block → Line → Option Block
  | .prose lines, .blank => some (.prose (lines ++ [[]]))
  | .prose lines, .prose text => some (.prose (lines ++ [text]))
  | .code lines, .blank => some (.code (lines ++ [[]]))
  | .code lines, .code text => some (.code (lines ++ [text]))
  | .tags names, .tags rest => some (.tags (names ++ tagNames rest))
  | _, _ => none

/-- The parts of the lines to come, after an open block. -/
def gather : Option Block → List Line → List Part
  | none, [] => []
  | some block, [] => [block.close]
  | none, line :: rest => gather (Block.opening? line) rest
  | some block, line :: rest =>
      match block.extend? line with
      | some longer => gather (some longer) rest
      | none => block.close :: gather (Block.opening? line) rest

end CommentFormat
