import CommentFormat.Text.Extender
import CommentFormat.Text.Space
import CommentFormat.Text.Unassigned

/-! Quoted text, as it stands in reports: what would not show is written by name or by number. -/

namespace CommentFormat

def controlRanges : CodeRanges :=
  [(0x00, 0x1F), (0x7F, 0x9F)]

def formatRanges : CodeRanges :=
  [(0xAD, 0xAD), (0x600, 0x605), (0x61C, 0x61C), (0x6DD, 0x6DD), (0x70F, 0x70F), (0x890, 0x891),
    (0x8E2, 0x8E2), (0x180E, 0x180E), (0x200B, 0x200F), (0x202A, 0x202E), (0x2060, 0x2064),
    (0x2066, 0x206F), (0xFEFF, 0xFEFF), (0xFFF9, 0xFFFB), (0x110BD, 0x110BD), (0x110CD, 0x110CD),
    (0x13430, 0x1343F), (0x1BCA0, 0x1BCA3), (0x1D173, 0x1D17A), (0xE0001, 0xE0001),
    (0xE0020, 0xE007F)]

def privateRanges : CodeRanges :=
  [(0xE000, 0xF8FF), (0xF0000, 0xFFFFD), (0x100000, 0x10FFFD)]

def fillerRanges : CodeRanges :=
  [(0x115F, 0x1160), (0x3164, 0x3164), (0xFFA0, 0xFFA0)]

def hiddenRanges : List CodeRanges :=
  [controlRanges, formatRanges, privateRanges, fillerRanges, extenderRanges, unassignedRanges]

/-- A character that does not show, or only together with the one before it. The plain space
is the one blank that a reader can tell from the others. -/
def showsNothing (character : Char) : Bool :=
  hiddenRanges.any (·.holds character) || (isSpace character && character != ' ')

def quotedCharacter (character : Char) : Text :=
  if character = '\x00' then ['\\', '0']
  else if character = '\t' then ['\\', 't']
  else if character = '\n' then ['\\', 'n']
  else if character = '\r' then ['\\', 'r']
  else if character = '\x22' then ['\\', '\x22']
  else if character = '\\' then ['\\', '\\']
  else if showsNothing character then
    ['\\', 'u', '\x7b'] ++ Nat.toDigits 16 character.toNat ++ ['\x7d']
  else [character]

def quoted (text : Text) : Text :=
  ['\x22'] ++ text.flatMap quotedCharacter ++ ['\x22']

def bracketed (items : List Text) : Text :=
  ['['] ++ [',', ' '].intercalate items ++ [']']

def quotedList (texts : List Text) : Text :=
  bracketed (texts.map quoted)

end CommentFormat
