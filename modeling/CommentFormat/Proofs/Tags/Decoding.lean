import CommentFormat.Proofs.Print.Reach
import CommentFormat.Proofs.Tags.Groups

/-! Decoding: the lines on which names are packed are read back as one tag part. -/

namespace CommentFormat

theorem gather_tags (names : List Text) (rests : List Text) :
    gather (some (.tags names)) (rests.map .tags) =
      [.tags (names ++ rests.flatMap tagNames)] := by
  induction rests generalizing names with
  | nil => simp [gather, Block.close]
  | cons rest later ih =>
      rw [List.map_cons, gather, Block.extend?]
      simp [ih]

theorem exists_read_tagLines (baseIndent : Nat) (rests : List Text) (nonempty : rests ≠ [])
    (ending : ∀ rest ∈ rests, ∀ character ∈ rest.head?, isSpace character = true) :
    ∃ kept, (endedLines (rests.map (tagWord ++ ·))).map
          (fun line => Line.read baseIndent (detab line)) = kept.map .tags ∧
      kept ≠ [] ∧ kept.flatMap tagNames = rests.flatMap tagNames := by
  induction rests with
  | nil => contradiction
  | cons rest later ih =>
      cases later with
      | nil =>
          have read := read_tag_line baseIndent rest (ending rest (by simp))
          have shown : tagWord ++ rest ≠ [] := by simp [tagWord]
          exact ⟨[rest], by simp only [List.map_cons, List.map_nil, endedLines, if_neg shown, read],
            by simp, rfl⟩
      | cons next others =>
          obtain ⟨kept, same, -, names⟩ := ih (by simp)
            (fun other member => ending other (List.mem_cons_of_mem rest member))
          have cut : dropReturn (tagWord ++ rest) = tagWord ++ dropReturn rest :=
            dropReturn_append tagWord rest (by decide)
          have ended : ∀ character ∈ (dropReturn rest).head?, isSpace character = true := by
            intro character first
            obtain ⟨removed, whole⟩ := dropReturn_isPrefix rest
            refine ending rest (by simp) character ?_
            rw [← whole, List.head?_append]
            simp [Option.mem_def.mp first]
          refine ⟨dropReturn rest :: kept, ?_, by simp, ?_⟩
          · rw [List.map_cons] at same ⊢
            rw [List.map_cons, endedLines, cut, List.map_cons,
              read_tag_line baseIndent _ ended, same, List.map_cons]
          · rw [List.flatMap_cons, List.flatMap_cons, names, tagNames_dropReturn]

theorem bodyParts_tagLines (baseIndent : Nat) (rests : List Text) (nonempty : rests ≠ [])
    (ending : ∀ rest ∈ rests, ∀ character ∈ rest.head?, isSpace character = true)
    (single : ∀ line ∈ rests.map (tagWord ++ ·), '\n' ∉ line) :
    bodyParts baseIndent (joinLines (rests.map (tagWord ++ ·))) =
      [.tags (rests.flatMap tagNames)] := by
  obtain ⟨kept, same, shown, names⟩ := exists_read_tagLines baseIndent rests nonempty ending
  obtain ⟨first, later, rfl⟩ := List.exists_cons_of_ne_nil shown
  rw [bodyParts, bodyLines, lines, splitOn_joinLines _ (by simpa using nonempty) single, same,
    List.map_cons, gather, Block.opening?, gather_tags, ← names]
  rfl

/-- Packed names are read back name by name, whatever the width and the margin. -/
theorem parse?_packed (kind : Kind) (baseIndent width : Nat) (names : List Text)
    (small : baseIndent ≤ columnLimit - 5) (single : ∀ name ∈ names, '\n' ∉ name) :
    let packed := (Packing.ofNames width 0 names).lines
    ((Part.tags names).volume + 6 < columnLimit →
      ∃ journal, packNames? width names = .ok (packed, journal)) ∧
    ∃ parsed, parse? kind baseIndent (joinLines packed) = .ok parsed ∧
      parsed.comment.parts = [.tags (names.flatMap tagNames)] ∧
      ((∀ name ∈ names, name ≠ [] ∧ trim name = name ∧ ',' ∉ name) →
        parsed.comment.parts = [.tags names]) ∧
      (names = [] → packed = [tagWord] ∧ parsed.comment.parts = [.tags []]) := by
  intro packed
  refine ⟨fun bounded => ?_, ?_⟩
  · have peak := (ofNames_bounds width 0 names).2
    exact ⟨_, (withinColumns_eq_ok_iff _ _ _).mpr ⟨by omega, rfl⟩⟩
  · obtain ⟨parsed, read, comment⟩ := parse?_ok kind baseIndent (joinLines packed) small
    obtain ⟨rests, lines, nonempty, ending, same⟩ := ofNames_rests width 0 names
    have unbroken : ∀ line ∈ packed, '\n' ∉ line :=
      ofNames_lacks '\n' (by decide) (by decide) names single width 0
    have decoded : parsed.comment.parts = [.tags (names.flatMap tagNames)] := by
      rw [comment, ← same]
      simp only [packed, lines] at unbroken ⊢
      exact bodyParts_tagLines baseIndent rests nonempty ending unbroken
    refine ⟨parsed, read, decoded, fun named => ?_, ?_⟩
    · rw [decoded, flatMap_tagNames names]
      intro name member
      obtain ⟨shown, trimmed, noComma⟩ := named name member
      exact ⟨shown, trimmed, noComma, single name member⟩
    · rintro rfl
      exact ⟨rfl, decoded⟩

theorem parse?_packed_narrow :
    let names : List Text := [['a', '\r'], [], " b , ,c".toList, ['d']]
    3 ≤ columnLimit - 5 ∧ (∀ name ∈ names, '\n' ∉ name) ∧
      ∃ parsed, parse? .doc 3 "@docs a\r\n@docs \n@docs  b , ,c\n@docs d".toList = .ok parsed ∧
        parsed.comment.parts = [.tags [['a'], ['b'], ['c'], ['d']]] := by
  intro names
  have single : ∀ name ∈ names, '\n' ∉ name := by decide
  have packed : joinLines (Packing.ofNames 9 0 names).lines =
      "@docs a\r\n@docs \n@docs  b , ,c\n@docs d".toList := by decide +kernel
  obtain ⟨-, parsed, read, parts, -⟩ := parse?_packed .doc 3 9 names (by decide) single
  exact ⟨by decide, single, parsed, packed ▸ read, parts.trans (by decide +kernel)⟩

end CommentFormat
