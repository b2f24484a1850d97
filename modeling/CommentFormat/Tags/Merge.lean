import CommentFormat.Comment

/-! Tag groups: tag parts that follow each other count as one. -/

namespace CommentFormat

def consMerged : Part → List Part → List Part
  | .tags names, .tags others :: rest => .tags (names ++ others) :: rest
  | part, rest => part :: rest

def mergeTags : List Part → List Part
  | [] => []
  | part :: rest => consMerged part (mergeTags rest)

/-- The names that a pass over a group has met, and those that it has reported. -/
structure Sightings where
  seen : List Text
  reported : List Text
deriving DecidableEq, Repr

/-- Whether a name is reported now, and the sets behind it. -/
def Sightings.meet (sightings : Sightings) (name : Text) : Bool × Sightings :=
  if name ∉ sightings.seen then (false, { sightings with seen := name :: sightings.seen })
  else if name ∉ sightings.reported then
    (true, { sightings with reported := name :: sightings.reported })
  else (false, sightings)

def repeatsFrom (sightings : Sightings) : List Text → List Text
  | [] => []
  | name :: rest =>
      let (reports, next) := sightings.meet name
      if reports then name :: repeatsFrom next rest else repeatsFrom next rest

def repeatedNames (names : List Text) : List Text :=
  repeatsFrom ⟨[], []⟩ names

end CommentFormat
