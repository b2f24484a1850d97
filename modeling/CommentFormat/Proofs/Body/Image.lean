import CommentFormat.Proofs.Body.Names
import CommentFormat.Proofs.Body.Reading

/-! Which comments are read from a body: those in normal form, and no others. -/

namespace CommentFormat

instance (content : Text) : Decidable (OpensTags content) :=
  decidable_of_iff ((afterTagWord? content).isSome = true) (by
    simp [Option.isSome_iff_exists, afterTagWord?_eq_some_iff, OpensTags])

instance : DecidablePred IsCodeLine := fun line =>
  decidable_of_iff (isBlank line = false ∧ '\t' ∉ line.takeWhile isIndent)
    ⟨fun ⟨shown, noTab⟩ => ⟨shown, noTab⟩, fun code => ⟨code.shown, code.noTab⟩⟩

instance : DecidablePred IsProseLine := fun line =>
  decidable_of_iff (isBlank line = false ∧
      (∃ count < indentStep, line.takeWhile isIndent = List.replicate count ' ') ∧
      ¬ OpensTags (line.dropWhile isIndent))
    ⟨fun ⟨shown, shallow, untagged⟩ => ⟨shown, shallow, untagged⟩,
      fun prose => ⟨prose.shown, prose.shallow, prose.untagged⟩⟩

instance (isShown : Text → Prop) [DecidablePred isShown] : DecidablePred (NormalText isShown) :=
  fun text =>
    decidable_of_iff ((∀ line ∈ (text.splitOn '\n').head?, isBlank line = false) ∧
        (∀ line ∈ (text.splitOn '\n').getLast?, isBlank line = false) ∧
        ∀ line ∈ text.splitOn '\n', line = [] ∨ isShown line)
      ⟨fun ⟨first, last, each⟩ => ⟨first, last, each⟩,
        fun normal => ⟨normal.first, normal.last, normal.each⟩⟩

instance : DecidablePred IsName := fun name =>
  decidable_of_iff (name ≠ [] ∧ trim name = name ∧ ',' ∉ name ∧ '\n' ∉ name)
    ⟨fun ⟨shown, trimmed, noComma, noBreak⟩ => ⟨shown, trimmed, noComma, noBreak⟩,
      fun named => ⟨named.shown, named.trimmed, named.noComma, named.noBreak⟩⟩

instance : DecidablePred Part.Normal
  | .prose text => inferInstanceAs (Decidable (NormalText IsProseLine text))
  | .code text => inferInstanceAs (Decidable (NormalText IsCodeLine text))
  | .tags names => inferInstanceAs (Decidable (∀ name ∈ names, IsName name))

instance : DecidableRel Part.Apart := fun first second =>
  inferInstanceAs (Decidable (first.sort = second.sort → first.sort = .tags))

instance : DecidablePred NormalParts := fun parts =>
  decidable_of_iff ((∀ part ∈ parts, part.Normal) ∧ parts.IsChain Part.Apart)
    ⟨fun ⟨each, apart⟩ => ⟨each, apart⟩, fun normal => ⟨normal.each, normal.apart⟩⟩

/-! A body for every comment in normal form. -/

def Part.sourceLines : Part → List Text
  | .prose text => text.splitOn '\n'
  | .code text => (text.splitOn '\n').map behindMargin
  | .tags [] => [tagWord]
  | .tags (name :: rest) => [tagOpening ++ nameSeparator.intercalate (name :: rest)]

theorem Part.readsAs_sourceLines (part : Part) (normal : part.Normal) :
    ReadsAs part.sourceLines part := by
  cases part with
  | prose text =>
      have reads := readsAs_prose _ (NormalText.heldLines normal) (NormalText.last_nonempty normal)
      rwa [joinLines_splitOn] at reads
  | code text =>
      have reads := readsAs_code _ (NormalText.heldLines normal) (NormalText.last_nonempty normal)
      rwa [joinLines_splitOn] at reads
  | tags names =>
      cases names with
      | nil => exact readsAs_tags [[]] (by simp) (by simp)
      | cons name rest =>
          have space : isSpace ' ' = true := by decide
          have reads := readsAs_tags [' ' :: nameSeparator.intercalate (name :: rest)] (by simp)
            (by simpa using space)
          simpa [Part.sourceLines, tagOpening, tagNames_spread, flatMap_tagNames (name :: rest) normal]
            using reads

theorem Part.newline_not_mem_sourceLines (part : Part) (normal : part.Normal) :
    ∀ line ∈ part.sourceLines, '\n' ∉ line := by
  intro line member
  cases part with
  | prose text => exact separator_not_mem_of_mem_splitOn '\n' text line member
  | code text =>
      obtain ⟨stored, inText, rfl⟩ := List.mem_map.mp member
      exact not_mem_behindMargin '\n' (by decide) stored
        (separator_not_mem_of_mem_splitOn '\n' text stored inText)
  | tags names =>
      cases names with
      | nil =>
          rw [List.mem_singleton.mp member]
          decide
      | cons name rest =>
          rw [List.mem_singleton.mp member, List.mem_append, not_or]
          refine ⟨by decide, fun inside => ?_⟩
          rcases mem_intercalate _ _ _ inside with separator | ⟨other, inNames, here⟩
          · exact absurd separator (by decide)
          · exact (normal other inNames).noBreak here

/-- Every line is ended by a carriage return and a line feed, so that a carriage return at the
end of a line is kept. -/
def sourceBody (parts : List Part) : Text :=
  match [[]].intercalate (parts.map Part.sourceLines) with
  | [] => []
  | lines => joinLines (lines.map (· ++ ['\r'])) ++ ['\n']

theorem lines_sourceBody (parts : List Part) (normal : NormalParts parts) :
    lines (sourceBody parts) = [[]].intercalate (parts.map Part.sourceLines) := by
  have single : ∀ line ∈ [[]].intercalate (parts.map Part.sourceLines), '\n' ∉ line := by
    intro line member
    rcases mem_intercalate _ _ _ member with blank | ⟨group, inParts, inside⟩
    · simp [List.mem_singleton.mp blank]
    · obtain ⟨part, isPart, rfl⟩ := List.mem_map.mp inParts
      exact part.newline_not_mem_sourceLines (normal.each part isPart) line inside
  unfold sourceBody
  generalize [[]].intercalate (parts.map Part.sourceLines) = source at single
  cases source with
  | nil => rfl
  | cons first rest =>
      have returned : ∀ line ∈ (first :: rest).map (· ++ ['\r']), '\n' ∉ line := by
        intro line member
        obtain ⟨kept, inSource, rfl⟩ := List.mem_map.mp member
        simpa using single kept inSource
      simp only [lines_joinLines_newline _ (by simp) returned, List.map_map]
      exact (List.map_congr_left fun line _ => dropReturn_append_return line).trans (List.map_id' _)

theorem bodyParts_sourceBody (parts : List Part) (normal : NormalParts parts) :
    bodyParts 0 (sourceBody parts) = parts := by
  have reads : List.Forall₂ ReadsAs (parts.map Part.sourceLines) parts := by
    rw [List.forall₂_map_left_iff, List.forall₂_same]
    exact fun part member => part.readsAs_sourceLines (normal.each part member)
  calc bodyParts 0 (sourceBody parts)
      = gather none (([[]].intercalate (parts.map Part.sourceLines)).map readLine) := by
        rw [← lines_sourceBody parts normal]
        rfl
    _ = parts := gather_blocks _ parts reads normal.apart

/-- The comments that are read from bodies are exactly those in normal form. -/
theorem parse?_image (kind : Kind) :
    (∀ baseIndent body, baseIndent ≤ columnLimit - 5 →
      ∃ parsed, parse? kind baseIndent body = .ok parsed ∧ NormalParts parsed.comment.parts) ∧
    ∀ comment : Comment kind, NormalParts comment.parts →
      ∃ body parsed, parse? kind 0 body = .ok parsed ∧ parsed.comment = comment := by
  constructor
  · intro baseIndent body small
    obtain ⟨parsed, read, comment⟩ := parse?_ok kind baseIndent body small
    refine ⟨parsed, read, ?_⟩
    rw [comment]
    exact bodyParts_normal baseIndent body
  · intro comment normal
    obtain ⟨parsed, read, same⟩ := parse?_ok kind 0 (sourceBody comment.parts) (by omega)
    refine ⟨sourceBody comment.parts, parsed, read, ?_⟩
    rw [same, bodyParts_sourceBody comment.parts normal]

theorem parse?_image_mixed :
    (∃ parsed, parse? .doc 2 ['\t', 'a', '\n', ' ', 'b', '\r'] = .ok parsed ∧
      NormalParts parsed.comment.parts) ∧
    ∃ body parsed, parse? .file 0 body = .ok parsed ∧ parsed.comment =
      ⟨[.tags [['a', '\r', 'b']], .tags [], .prose [' ', 'c', '\r', '\n', '\n', '@', 'd'],
        .code [' ', ' ', 'e', '\r']]⟩ :=
  ⟨(parse?_image .doc).1 2 _ (by decide), (parse?_image .file).2 _ (by decide)⟩

end CommentFormat
