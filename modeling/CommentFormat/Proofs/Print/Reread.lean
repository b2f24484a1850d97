import CommentFormat.Proofs.Print.Written

/-! Reading a printed comment again. -/

namespace CommentFormat

theorem bodyOf?_eq_some_iff (text body : Text) :
    bodyOf? text = some body ↔
      ∃ inner, trim text = openMark ++ (inner ++ closeMark) ∧
        body = ([' '].isPrefixOf? inner).getD inner := by
  simp only [bodyOf?, Option.bind_eq_bind, Option.pure_def, Option.bind_eq_some_iff,
    List.isPrefixOf?_eq_some_iff_append_eq, List.isSuffixOf?_eq_some_iff_append_eq,
    Option.some.injEq]
  constructor
  · rintro ⟨opened, start, inner, close, same⟩
    exact ⟨inner, by rw [close, start], same.symm⟩
  · rintro ⟨inner, cut, same⟩
    exact ⟨inner ++ closeMark, cut.symm, inner, rfl, same.symm⟩

theorem trim_delimited (inner : Text) :
    trim (openMark ++ (inner ++ closeMark)) = openMark ++ (inner ++ closeMark) := by
  have brace : isSpace '\x7b' = false := by decide
  have start : trimStart (openMark ++ (inner ++ closeMark)) = openMark ++ (inner ++ closeMark) := by
    simp [trimStart, openMark, brace]
  have ended := trimEnd_append_of_shown (openMark ++ (inner ++ closeMark)) [] (by
    have close : isSpace '\x7d' = false := by decide
    simpa [closeMark] using close)
  rw [trim, start]
  simpa [trimEnd] using ended

theorem bodyOf?_delimited (inner : Text) :
    bodyOf? (openLead ++ (inner ++ closeMark)) = some inner := by
  rw [bodyOf?_eq_some_iff]
  refine ⟨' ' :: inner, ?_, ?_⟩
  · simpa [openLead] using trim_delimited (' ' :: inner)
  · simp [List.isPrefixOf?]

theorem returnsEndLines_body (text body : Text) (stripped : bodyOf? text = some body)
    (ended : ReturnsEndLines text) : ReturnsEndLines body := by
  obtain ⟨inner, cut, same⟩ := (bodyOf?_eq_some_iff text body).mp stripped
  have behind : ∃ skipped, inner = skipped ++ body := by
    cases space : [' '].isPrefixOf? inner with
    | none => exact ⟨[], by simp [same, space]⟩
    | some rest =>
        refine ⟨[' '], ?_⟩
        rw [same, space]
        exact (List.isPrefixOf?_eq_some_iff_append_eq.mp space).symm
  obtain ⟨skipped, innerCut⟩ := behind
  obtain ⟨white, trimmed, -⟩ := exists_trimEnd (trimStart text)
  have whole : text = (leadingSpace text ++ (openMark ++ skipped)) ++
      (body ++ (closeMark ++ white)) := by
    calc text = leadingSpace text ++ (trim text ++ white) := by
          rw [trim, ← trimmed, leadingSpace_append_trimStart]
      _ = _ := by
          rw [cut, innerCut]
          simp
  rw [whole] at ended
  have bodyEnded := ended.of_append
  intro before after found
  have next := bodyEnded before (after ++ (closeMark ++ white)) (by rw [found]; simp)
  cases after with
  | nil => simp [closeMark] at next
  | cons character rest => simpa using next

theorem printedLines_ne_nil (width : Nat) (parts : List Part) (legible : LegibleParts parts)
    (some : mergeTags parts ≠ []) : printedLines width parts ≠ [] := by
  obtain ⟨part, rest, merged⟩ := List.exists_cons_of_ne_nil some
  have shown := (part.readsAs_printedLines (legible.merged part (by simp [merged])) width
    (columns openLead)).nonempty
  rw [printedLines, printedBlocks, merged, mapFrom]
  cases rest <;> simp [shown]

theorem printedLines_lacks (width : Nat) (parts : List Part) (legible : LegibleParts parts)
    (character : Char) (opening : character ∉ tagOpening) (separator : character ∉ nameSeparator)
    (lacks : ∀ part ∈ mergeTags parts, ∀ piece ∈ part.pieces, character ∉ piece) :
    ∀ line ∈ printedLines width parts, character ∉ line := by
  intro line member
  rcases mem_intercalate _ _ _ member with blank | ⟨block, inBlocks, inside⟩
  · simp [List.mem_singleton.mp blank]
  · obtain ⟨column, part, inParts, rfl⟩ := mem_mapFrom _ _ _ _ inBlocks
    exact part.printedLines_lacks (legible.merged part inParts) character opening separator
      (lacks part inParts) width column line inside

theorem bodyParts_printedLines (width : Nat) (parts : List Part) (legible : LegibleParts parts) :
    bodyParts 0 (joinLines (printedLines width parts) ++ ['\n']) =
      mapFrom (Part.reprinted width) (columns openLead) (mergeTags parts) := by
  by_cases some : mergeTags parts = []
  · rw [printedLines, printedBlocks, some]
    rfl
  · have single := printedLines_lacks width parts legible '\n' (by decide) (by decide)
      fun part member => part.newline_not_mem_pieces (legible.merged part member).normal
    have noReturn := printedLines_lacks width parts legible '\r' (by decide) (by decide)
      fun part member => (legible.merged part member).noReturn
    have sameLines : lines (joinLines (printedLines width parts) ++ ['\n']) =
        printedLines width parts := by
      rw [lines_joinLines_newline _ (printedLines_ne_nil width parts legible some) single]
      exact (List.map_congr_left fun line member =>
        dropReturn_of_not_mem line (noReturn line member)).trans (List.map_id' _)
    have reads : List.Forall₂ ReadsAs (printedBlocks width parts)
        (mapFrom (Part.reprinted width) (columns openLead) (mergeTags parts)) :=
      forall₂_mapFrom _ _ ReadsAs _ _ fun column part member =>
        part.readsAs_printedLines (legible.merged part member) width column
    have apart : (mapFrom (Part.reprinted width) (columns openLead)
        (mergeTags parts)).IsChain Part.Apart := by
      have turns := (mergeTags_sorts parts legible.apart).1
      rw [← reprinted_sorts width (columns openLead), List.isChain_map] at turns
      exact turns.imp fun first second different same => absurd same different
    calc bodyParts 0 (joinLines (printedLines width parts) ++ ['\n'])
        = gather none ((printedLines width parts).map readLine) := by
          rw [bodyParts, bodyLines, sameLines]
          rfl
      _ = _ := gather_blocks _ _ reads apart

/-- A printed comment has a body, which is read as the parts that were printed. -/
theorem Comment.reread {kind : Kind} (comment : Comment kind) (width : Nat)
    (legible : LegibleParts comment.parts) :
    ∃ again, bodyOf? (comment.printed width).text = some again ∧ ReturnsEndLines again ∧
      bodyParts 0 again =
        mapFrom (Part.reprinted width) (columns openLead) (mergeTags comment.parts) := by
  refine ⟨joinLines (printedLines width comment.parts) ++ ['\n'], ?_, ?_,
    bodyParts_printedLines width comment.parts legible⟩
  · have delimited := bodyOf?_delimited (joinLines (printedLines width comment.parts) ++ ['\n'])
    rw [comment.printed_text width legible]
    simpa using delimited
  · have noReturn := not_mem_joinLines '\r' _ (by decide)
      (printedLines_lacks width comment.parts legible '\r' (by decide) (by decide)
        fun part member => (legible.merged part member).noReturn)
    intro before after found
    have inside : '\r' ∈ joinLines (printedLines width comment.parts) ++ ['\n'] := by
      simp [found]
    exact absurd inside (by simp [noReturn])

end CommentFormat
