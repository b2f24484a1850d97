import CommentFormat.Text.Space

/-! Words: the longest stretches of a text that hold no white space. -/

namespace CommentFormat

def words (text : Text) : List Text :=
  (text.splitOnP isSpace).filter fun word => !word.isEmpty

@[simp] theorem words_nil : words [] = [] := rfl

theorem words_append_space (before after : Text) (character : Char)
    (space : isSpace character = true) :
    words (before ++ character :: after) = words before ++ words after := by
  rw [words, List.splitOnP_append_cons before after space, List.filter_append]
  rfl

theorem words_cons_space (character : Char) (rest : Text) (space : isSpace character = true) :
    words (character :: rest) = words rest := by
  simpa using words_append_space [] rest character space

end CommentFormat
