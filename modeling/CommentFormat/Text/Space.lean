import CommentFormat.Text.CodeRanges

/-! White space: the characters that separate words and that trimming removes. -/

namespace CommentFormat

abbrev Text := List Char

def spaceRanges : CodeRanges :=
  [(0x09, 0x0D), (0x20, 0x20), (0x85, 0x85), (0xA0, 0xA0), (0x1680, 0x1680), (0x2000, 0x200A),
    (0x2028, 0x2029), (0x202F, 0x202F), (0x205F, 0x205F), (0x3000, 0x3000)]

def isSpace (character : Char) : Bool :=
  spaceRanges.holds character

def isBlank (text : Text) : Bool :=
  text.all isSpace

@[simp] theorem isBlank_nil : isBlank [] = true := rfl

@[simp] theorem isBlank_cons (character : Char) (rest : Text) :
    isBlank (character :: rest) = (isSpace character && isBlank rest) := rfl

def trimStart (text : Text) : Text :=
  text.dropWhile isSpace

def trimEnd (text : Text) : Text :=
  (text.reverse.dropWhile isSpace).reverse

def trim (text : Text) : Text :=
  trimEnd (trimStart text)

def leadingSpace (text : Text) : Text :=
  text.takeWhile isSpace

theorem leadingSpace_append_trimStart (text : Text) :
    leadingSpace text ++ trimStart text = text :=
  List.takeWhile_append_dropWhile

theorem dropWhile_isSpace_eq_nil_iff (text : Text) :
    text.dropWhile isSpace = [] ↔ isBlank text = true := by
  induction text with
  | nil => simp
  | cons character rest ih => cases space : isSpace character <;> simp [space, ih]

theorem trimStart_eq_nil_iff (text : Text) : trimStart text = [] ↔ isBlank text = true :=
  dropWhile_isSpace_eq_nil_iff text

end CommentFormat
