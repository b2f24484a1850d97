import CommentFormat.Proofs.Layout.Fewest
import CommentFormat.Proofs.Print.Rows

/-! The number of printed lines, which a wider page never makes larger. -/

namespace CommentFormat

section Wider

variable {narrow wide : Nat} (less : narrow ≤ wide)

include less

theorem wrapItems_length_le (offset : Nat) (items : List Text) :
    (wrapItems wide offset items).length ≤ (wrapItems narrow offset items).length := by
  by_cases empty : items = []
  · simp [empty, wrapItems]
  · obtain ⟨rows, wrapped, cut, greedy⟩ := wrapItems_greedy narrow offset items empty
    obtain ⟨others, otherWrapped, otherCut, otherGreedy⟩ := wrapItems_greedy wide offset items empty
    rw [wrapped, otherWrapped, List.length_map, List.length_map]
    exact greedy.length_le less otherGreedy (cut.trans otherCut.symm)

theorem ofNames_length_le (offset : Nat) (names : List Text) :
    (Packing.ofNames wide offset names).lines.length ≤
      (Packing.ofNames narrow offset names).lines.length := by
  by_cases empty : names = []
  · simp [empty, Packing.ofNames]
  · obtain ⟨rows, packed, cut, greedy⟩ := ofNames_greedy narrow offset names empty
    obtain ⟨others, otherPacked, otherCut, otherGreedy⟩ := ofNames_greedy wide offset names empty
    rw [packed, otherPacked, List.length_map, List.length_map]
    exact greedy.length_le less otherGreedy (cut.trans otherCut.symm)

theorem Passage.linesAt_length_le (offset : Nat) (passage : Passage) :
    (passage.linesAt wide offset).length ≤ (passage.linesAt narrow offset).length := by
  cases passage with
  | run lines => exact wrapItems_length_le less offset (runItems lines)
  | _ => exact Nat.le_refl _

theorem passageLines_length_le (offset : Nat) (found : List Passage) :
    (passageLines wide offset found).length ≤ (passageLines narrow offset found).length := by
  induction found generalizing offset with
  | nil => exact Nat.le_refl _
  | cons passage rest ih =>
      have here := passage.linesAt_length_le less offset
      have behind := ih 0
      rw [passageLines, passageLines, flatMap_linesAt, flatMap_linesAt, List.length_append,
        List.length_append]
      omega

theorem Part.printedLines_length_le (offset : Nat) (part : Part) :
    (part.printedLines wide offset).length ≤ (part.printedLines narrow offset).length := by
  cases part with
  | prose text => exact passageLines_length_le less offset (passages text)
  | code text => exact Nat.le_refl _
  | tags names => exact ofNames_length_le less offset names

end Wider

/-! From the lines of the parts to those of the text. -/

theorem length_atLeastOne (lines : List Text) : (atLeastOne lines).length = max 1 lines.length := by
  cases lines with
  | nil => rfl
  | cons line rest =>
      simp only [atLeastOne, List.length_cons]
      omega

theorem length_intercalate_le (between : List Text) {blocks others : List (List Text)}
    (each : List.Forall₂ (fun block other => block.length ≤ other.length) blocks others) :
    (between.intercalate blocks).length ≤ (between.intercalate others).length := by
  induction each with
  | nil => exact Nat.le_refl _
  | @cons block other rest later here behind ih =>
      cases behind with
      | nil => simpa using here
      | cons next more =>
          simp only [List.intercalate_cons_cons, List.length_append] at ih ⊢
          omega

theorem length_splitOn_delimited (lines : List Text) (shown : lines ≠ [])
    (single : ∀ line ∈ lines, '\n' ∉ line) :
    ((openLead ++ (joinLines lines ++ '\n' :: closeMark)).splitOn '\n').length =
      lines.length + 1 := by
  obtain ⟨first, rest, rfl⟩ := List.exists_cons_of_ne_nil shown
  have leadSingle : '\n' ∉ openLead := by decide
  have singles : ∀ line ∈ (openLead ++ first) :: rest, '\n' ∉ line := by
    simpa [leadSingle] using single
  have closing : (closeMark.splitOn '\n').length = 1 := by decide
  rw [← List.append_assoc, ← joinLines_lead, List.splitOn_append_cons_self,
    splitOn_joinLines _ (by simp) singles, List.length_append, closing]
  simp

/-- On a wider page a comment is never printed on more lines. -/
theorem Comment.printed_length_antitone {narrow wide : Nat} (less : narrow ≤ wide) {kind : Kind}
    (comment : Comment kind) (unbroken : ∀ part ∈ comment.parts, part.Unbroken) :
    (comment.Bounded → ∀ width, comment.print? ⟨width⟩ = .ok (comment.printed width)) ∧
      ((comment.printed wide).text.splitOn '\n').length ≤
        ((comment.printed narrow).text.splitOn '\n').length := by
  refine ⟨fun bounded width => comment.print?_unbroken width unbroken bounded.volume, ?_⟩
  have count (width : Nat) : ((comment.printed width).text.splitOn '\n').length =
      (atLeastOne ([[]].intercalate (mapFrom (Part.blockLines width) (columns openLead)
        (mergeTags comment.parts)))).length + 1 := by
    have shown : atLeastOne ([[]].intercalate (mapFrom (Part.blockLines width) (columns openLead)
        (mergeTags comment.parts))) ≠ [] := by
      rw [← List.length_pos_iff, length_atLeastOne]
      omega
    rw [comment.printed_text_eq width]
    exact length_splitOn_delimited _ shown (newline_not_mem_blocks width (mergeTags comment.parts)
      (mergeTags_unbroken comment.parts unbroken) (columns openLead))
  have blocks := length_intercalate_le [[]] (forall₂_mapFrom (Part.blockLines wide)
    (Part.blockLines narrow) (fun block other => block.length ≤ other.length) (columns openLead)
    (mergeTags comment.parts) (by
      intro column part _
      have lines := part.printedLines_length_le less column
      simp only [Part.blockLines, length_atLeastOne]
      omega))
  rw [count, count, length_atLeastOne, length_atLeastOne]
  omega

theorem Comment.printed_length_antitone_mixed :
    let comment : Comment .doc := ⟨[.tags [['a'], ['b']], .prose "cc dd\nee # ff\n- gg hh".toList,
      .code ['i', '\n', '\n', 'j'], .tags [['k', 'l'], ['m']]]⟩
    11 ≤ 14 ∧ (∀ part ∈ comment.parts, part.Unbroken) ∧ comment.Bounded ∧
      comment.print? ⟨14⟩ = .ok (comment.printed 14) ∧
      ((comment.printed 11).text.splitOn '\n').length = 13 ∧
      ((comment.printed 14).text.splitOn '\n').length ≤ 13 := by
  intro comment
  have unbroken : ∀ part ∈ comment.parts, part.Unbroken := by simp [comment, Part.Unbroken]
  have bounded : comment.Bounded := ⟨by decide, by decide⟩
  have count : ((comment.printed 11).text.splitOn '\n').length = 13 := by decide +kernel
  obtain ⟨printed, fewer⟩ := comment.printed_length_antitone (show 11 ≤ 14 by decide) unbroken
  exact ⟨by decide, unbroken, bounded, printed bounded 14, count, count ▸ fewer⟩

end CommentFormat
