import CommentFormat.Proofs.Layout.Writing
import CommentFormat.Proofs.Prose.Passages
import CommentFormat.Proofs.Tags.Groups

/-! The printed text of a comment as blocks of lines, one for each part, and what each block is
read as. -/

namespace CommentFormat

def mapFrom {α β : Type} (treat : Nat → α → β) (offset : Nat) : List α → List β
  | [] => []
  | item :: rest => treat offset item :: rest.map (treat 0)

theorem mapFrom_zero {α β : Type} (treat : Nat → α → β) (items : List α) :
    items.map (treat 0) = mapFrom treat 0 items := by
  cases items <;> rfl

theorem forall₂_mapFrom {α β γ : Type} (first : Nat → α → β) (second : Nat → α → γ)
    (related : β → γ → Prop) (offset : Nat) (items : List α)
    (each : ∀ column, ∀ item ∈ items, related (first column item) (second column item)) :
    List.Forall₂ related (mapFrom first offset items) (mapFrom second offset items) := by
  cases items with
  | nil => exact .nil
  | cons item rest =>
      refine .cons (each offset item (by simp)) ?_
      rw [List.forall₂_map_left_iff, List.forall₂_map_right_iff, List.forall₂_same]
      exact fun other member => each 0 other (List.mem_cons_of_mem item member)

theorem mem_mapFrom {α β : Type} (treat : Nat → α → β) (offset : Nat) (items : List α) (result : β)
    (member : result ∈ mapFrom treat offset items) :
    ∃ column, ∃ item ∈ items, treat column item = result := by
  cases items with
  | nil => simp [mapFrom] at member
  | cons item rest =>
      rcases List.mem_cons.mp member with same | behind
      · exact ⟨offset, item, by simp, same.symm⟩
      · obtain ⟨other, inRest, treated⟩ := List.mem_map.mp behind
        exact ⟨0, other, List.mem_cons_of_mem item inRest, treated⟩

/-! The lines of one part. -/

def Part.printedLines (width offset : Nat) : Part → List Text
  | .prose text => passageLines width offset (passages text)
  | .code text => (text.splitOn '\n').map behindMargin
  | .tags names => (Packing.ofNames width offset names).lines

/-- The part that a printed part is read as. -/
def Part.reprinted (width offset : Nat) : Part → Part
  | .prose text => .prose (joinLines (passageLines width offset (passages text)))
  | .code text => .code text
  | .tags names => .tags names

@[simp] theorem Part.reprinted_sort (width offset : Nat) (part : Part) :
    (part.reprinted width offset).sort = part.sort := by
  cases part <;> rfl

theorem reprinted_sorts (width offset : Nat) (parts : List Part) :
    (mapFrom (Part.reprinted width) offset parts).map Part.sort = parts.map Part.sort := by
  cases parts <;> simp [mapFrom]

def Part.pieces : Part → List Text
  | .prose text => text.splitOn '\n'
  | .code text => text.splitOn '\n'
  | .tags names => names

structure Part.Legible (part : Part) : Prop where
  normal : part.Normal
  noReturn : ∀ piece ∈ part.pieces, '\r' ∉ piece

theorem Part.newline_not_mem_pieces (part : Part) (normal : part.Normal) :
    ∀ piece ∈ part.pieces, '\n' ∉ piece := by
  cases part with
  | prose text => exact separator_not_mem_of_mem_splitOn '\n' text
  | code text => exact separator_not_mem_of_mem_splitOn '\n' text
  | tags names => exact fun name member => (normal name member).noBreak

theorem Part.return_not_mem_pieces (part : Part) (lacks : ∀ text ∈ part.texts, '\r' ∉ text) :
    ∀ piece ∈ part.pieces, '\r' ∉ piece := by
  cases part with
  | prose text =>
      intro piece member inside
      exact lacks text (by simp [Part.texts]) (of_mem_splitOn '\n' text piece member '\r' inside).2
  | code text =>
      intro piece member inside
      exact lacks text (by simp [Part.texts]) (of_mem_splitOn '\n' text piece member '\r' inside).2
  | tags names => exact lacks

structure LegibleParts (parts : List Part) : Prop where
  each : ∀ part ∈ parts, part.Legible
  apart : parts.IsChain Part.Apart

theorem LegibleParts.merged {parts : List Part} (legible : LegibleParts parts) :
    ∀ part ∈ mergeTags parts, part.Legible := by
  refine mergeTags_forall Part.Legible ?_ parts legible.each
  intro names others first second
  refine ⟨?_, ?_⟩ <;> intro name member
  · rcases List.mem_append.mp member with here | behind
    · exact first.normal name here
    · exact second.normal name behind
  · rcases List.mem_append.mp member with here | behind
    · exact first.noReturn name here
    · exact second.noReturn name behind

theorem bodyParts_legible (baseIndent : Nat) (body : Text) (ended : ReturnsEndLines body) :
    LegibleParts (bodyParts baseIndent body) := by
  have normal := bodyParts_normal baseIndent body
  have lacks := bodyParts_lacks '\r' baseIndent body (by decide) (by decide)
    (return_not_mem_lines body ended)
  exact ⟨fun part member => ⟨normal.each part member, part.return_not_mem_pieces (lacks part member)⟩,
    normal.apart⟩

theorem lines_prose (text : Text) (legible : (Part.prose text).Legible) :
    lines text = text.splitOn '\n' := by
  have cut := lines_joinLines (text.splitOn '\n') (List.splitOn_ne_nil '\n' text)
    (separator_not_mem_of_mem_splitOn '\n' text) legible.noReturn
    (NormalText.last_nonempty legible.normal)
  rwa [joinLines_splitOn] at cut

theorem heldLines_prose (text : Text) (legible : (Part.prose text).Legible) (width offset : Nat) :
    HeldLines IsProseLine (passageLines width offset (passages text)) ∧
      ∀ line ∈ (passageLines width offset (passages text)).getLast?, line ≠ [] := by
  have held := NormalText.heldLines legible.normal
  obtain ⟨first, rest, cut, shown⟩ := held.first
  rw [passages_eq, lines_prose text legible]
  have each := passageLines_each width offset _ held.each
  obtain ⟨start, others, laid, startShown⟩ :=
    passageLines_shown width offset (text.splitOn '\n') ⟨first, by simp [cut], shown.shown⟩
  refine ⟨⟨⟨start, others, laid, ?_⟩, each⟩, ?_⟩
  · rcases each start (by simp [laid]) with empty | prose
    · simp [empty] at startShown
    · exact prose
  · intro line last empty
    have ends := passageLines_last width (text.splitOn '\n') legible.normal.last offset line last
    simp [empty] at ends

theorem Part.readsAs_printedLines (part : Part) (legible : part.Legible) (width offset : Nat) :
    ReadsAs (part.printedLines width offset) (part.reprinted width offset) := by
  cases part with
  | prose text =>
      obtain ⟨held, last⟩ := heldLines_prose text legible width offset
      exact readsAs_prose _ held last
  | code text =>
      have reads := readsAs_code _ (NormalText.heldLines legible.normal)
        (NormalText.last_nonempty legible.normal)
      rwa [joinLines_splitOn] at reads
  | tags names => exact readsAs_ofNames width offset names legible.normal

theorem Part.printedLines_lacks (part : Part) (legible : part.Legible) (character : Char)
    (opening : character ∉ tagOpening) (separator : character ∉ nameSeparator)
    (lacks : ∀ piece ∈ part.pieces, character ∉ piece) (width offset : Nat) :
    ∀ line ∈ part.printedLines width offset, character ∉ line := by
  have notSpace : character ≠ ' ' := by
    rintro rfl
    exact opening (by decide)
  intro line member
  cases part with
  | prose text =>
      rw [Part.printedLines, passages_eq, lines_prose text legible] at member
      exact passageLines_lacks width offset _ character notSpace lacks line member
  | code text =>
      obtain ⟨piece, inText, rfl⟩ := List.mem_map.mp member
      exact not_mem_behindMargin character notSpace piece (lacks piece inText)
  | tags names => exact ofNames_lacks character opening separator names lacks width offset line member

end CommentFormat
