import CommentFormat.Text.Space

/-! The fixed spellings of a comment: its delimiters and the word that opens a tag line. -/

namespace CommentFormat

def openMark : Text :=
  ['\x7b', '-', '|']

def closeMark : Text :=
  ['-', '\x7d']

def tagWord : Text :=
  ['@', 'd', 'o', 'c', 's']

def tagOpening : Text :=
  tagWord ++ [' ']

def nameSeparator : Text :=
  [',', ' ']

/-- The text between the delimiters, without the one space that may follow the first. -/
def bodyOf? (text : Text) : Option Text := do
  let opened ← openMark.isPrefixOf? (trim text)
  let inner ← closeMark.isSuffixOf? opened
  return ([' '].isPrefixOf? inner).getD inner

end CommentFormat
