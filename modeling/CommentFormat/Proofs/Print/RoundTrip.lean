import CommentFormat.Proofs.Print.Reach
import CommentFormat.Proofs.Print.Reread

/-! The round trip: printing a comment and reading the text again gives the same parts. -/

namespace CommentFormat

/-- What printing leaves of a part: all of a code part and of a tag group, and the words of
prose. -/
def Part.Survives : Part → Part → Prop
  | .prose text, .prose again => words again = words text
  | .code text, .code again => again = text
  | .tags names, .tags again => again = names
  | _, _ => False

theorem Part.survives_reprinted (part : Part) (legible : part.Legible) (width offset : Nat) :
    part.Survives (part.reprinted width offset) := by
  cases part with
  | prose text =>
      calc words (joinLines (passageLines width offset (passages text)))
          = (lines text).flatMap words := by rw [words_joinLines, passages_eq, passageLines_words]
        _ = words text := by
          rw [lines_prose text legible, ← words_joinLines, joinLines_splitOn]
  | code text => rfl
  | tags names => rfl

theorem mapFrom_forall₂ {α β : Type} (treat : Nat → α → β) (related : α → β → Prop) (offset : Nat)
    (items : List α) (each : ∀ column, ∀ item ∈ items, related item (treat column item)) :
    List.Forall₂ related items (mapFrom treat offset items) := by
  have same : mapFrom (fun _ item => item) offset items = items := by
    cases items <;> simp [mapFrom]
  have both := forall₂_mapFrom (fun _ item => item) treat related offset items each
  rwa [same] at both

/-- Every tag group, code part and prose part of a comment comes back from its printed text, in
order, and nothing else does. -/
theorem roundTrip (kind : Kind) (baseIndent : Nat) (body : Text) (width : Nat)
    (small : baseIndent ≤ columnLimit - 5) (ended : ReturnsEndLines body) :
    ∃ parsed, parse? kind baseIndent body = .ok parsed ∧
      (28 * body.length + 38 < columnLimit →
        parsed.comment.print? ⟨width⟩ = .ok (parsed.comment.printed width)) ∧
      ∃ again reparsed, bodyOf? (parsed.comment.printed width).text = some again ∧
        parse? kind 0 again = .ok reparsed ∧
        List.Forall₂ Part.Survives (mergeTags parsed.comment.parts) reparsed.comment.parts := by
  obtain ⟨parsed, read, comment⟩ := parse?_ok kind baseIndent body small
  have legible : LegibleParts parsed.comment.parts := by
    rw [comment]
    exact bodyParts_legible baseIndent body ended
  obtain ⟨again, stripped, -, parts⟩ := parsed.comment.reread width legible
  obtain ⟨reparsed, reread, recomment⟩ := parse?_ok kind 0 again (by omega)
  refine ⟨parsed, read, ?_, again, reparsed, stripped, reread, ?_⟩
  · rw [comment]
    exact print?_bodyParts kind baseIndent body width
  · rw [recomment]
    simp only [parts]
    exact mapFrom_forall₂ _ _ _ _ fun column part member =>
      part.survives_reprinted (legible.merged part member) width column

theorem roundTrip_mixed :
    ∃ parsed again reparsed,
      parse? .file 1 [' ', 'a', ' ', 'b', '\r', '\n', '\n', '\t', ' ', 'c', '\n', '@', 'd', 'o', 'c',
        's', ' ', 'd', ',', 'e'] = .ok parsed ∧
      bodyOf? (parsed.comment.printed 2).text = some again ∧
      parse? .file 0 again = .ok reparsed ∧
      List.Forall₂ Part.Survives (mergeTags parsed.comment.parts) reparsed.comment.parts := by
  obtain ⟨parsed, read, -, again, reparsed, stripped, reread, survive⟩ :=
    roundTrip .file 1 [' ', 'a', ' ', 'b', '\r', '\n', '\n', '\t', ' ', 'c', '\n', '@', 'd', 'o', 'c',
      's', ' ', 'd', ',', 'e'] 2 (by decide) (by decide)
  exact ⟨parsed, again, reparsed, read, stripped, reread, survive⟩

end CommentFormat
