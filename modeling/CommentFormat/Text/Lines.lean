import CommentFormat.Text.Space

/-! Lines: cutting a text where its lines end, and joining lines again. -/

namespace CommentFormat

def dropReturn (line : Text) : Text :=
  if line.getLast? = some '\r' then line.dropLast else line

/-- Every piece but the last was ended by a line feed; an empty last piece is no line. -/
def endedLines : List Text → List Text
  | [] => []
  | [last] => if last = [] then [] else [last]
  | piece :: next :: rest => dropReturn piece :: endedLines (next :: rest)

def lines (text : Text) : List Text :=
  endedLines (text.splitOn '\n')

def joinLines (lines : List Text) : Text :=
  ['\n'].intercalate lines

def onOneLine (text : Text) : Bool :=
  !text.contains '\n'

@[simp] theorem onOneLine_iff (text : Text) : onOneLine text = true ↔ '\n' ∉ text := by
  simp [onOneLine]

theorem splitOn_joinLines (lines : List Text) (nonempty : lines ≠ [])
    (single : ∀ line ∈ lines, '\n' ∉ line) : (joinLines lines).splitOn '\n' = lines :=
  List.splitOn_intercalate '\n' single nonempty

theorem dropReturn_sublist (line : Text) : (dropReturn line).Sublist line := by
  unfold dropReturn
  split
  · exact List.dropLast_sublist line
  · exact List.Sublist.refl line

def byteCount (text : Text) : Nat :=
  text.foldl (fun count character => count + character.utf8Size) 0

abbrev columns (text : Text) : Nat :=
  text.length

end CommentFormat
