/-! Ranges of code points, as the properties of characters are listed. -/

namespace CommentFormat

abbrev CodeRanges := List (Nat × Nat)

def CodeRanges.holds (ranges : CodeRanges) (character : Char) : Bool :=
  ranges.any fun range => range.1 ≤ character.toNat && character.toNat ≤ range.2

def CodeRanges.ascending : CodeRanges → Bool
  | [] => true
  | [range] => range.1 ≤ range.2
  | range :: next :: rest =>
      range.1 ≤ range.2 && range.2 < next.1 && CodeRanges.ascending (next :: rest)

end CommentFormat
