import CommentFormat.Proofs.Print.Reach
import CommentFormat.Proofs.Print.Reread
import CommentFormat.Proofs.Prose.Reflow

/-! Printing twice: exactly when the text that was printed once is printed again. -/

namespace CommentFormat

def Part.MarksHold (width : Nat) : Part → Prop
  | .prose text => CommentFormat.MarksHold width (passages text)
  | .code _ => True
  | .tags _ => True

theorem mapFrom_mapFrom {α β γ : Type} (first : Nat → α → β) (second : Nat → β → γ) (offset : Nat)
    (items : List α) :
    mapFrom second offset (mapFrom first offset items) =
      mapFrom (fun column item => second column (first column item)) offset items := by
  cases items with
  | nil => rfl
  | cons item rest => simp [mapFrom]

theorem mapFrom_eq_iff {α β : Type} (first second : Nat → α → β) (holds : α → Prop) (offset : Nat)
    (items : List α)
    (each : ∀ column, ∀ item ∈ items, first column item = second column item ↔ holds item) :
    mapFrom first offset items = mapFrom second offset items ↔ ∀ item ∈ items, holds item := by
  cases items with
  | nil => simp [mapFrom]
  | cons item rest =>
      have here := each offset item (by simp)
      have behind : rest.map (first 0) = rest.map (second 0) ↔ ∀ other ∈ rest, holds other := by
        rw [List.map_inj_left]
        exact forall₂_congr fun other member => each 0 other (List.mem_cons_of_mem item member)
      rw [mapFrom, mapFrom, List.cons.injEq, here, behind, List.forall_mem_cons]

theorem lines_flowed (text : Text) (legible : (Part.prose text).Legible) (width offset : Nat) :
    lines (joinLines (passageLines width offset (passages text))) =
      passageLines width offset (passages text) := by
  obtain ⟨held, last⟩ := heldLines_prose text legible width offset
  obtain ⟨first, rest, cut, -⟩ := held.first
  exact lines_joinLines _ (by simp [cut])
    (Part.printedLines_lacks (.prose text) legible '\n' (by decide) (by decide)
      (Part.newline_not_mem_pieces (.prose text) legible.normal) width offset)
    (Part.printedLines_lacks (.prose text) legible '\r' (by decide) (by decide) legible.noReturn
      width offset) last

theorem Part.printedLines_again_iff (part : Part) (legible : part.Legible) (width offset : Nat) :
    (part.reprinted width offset).printedLines width offset = part.printedLines width offset ↔
      part.MarksHold width := by
  cases part with
  | prose text =>
      rw [Part.reprinted, Part.printedLines, Part.printedLines, passages_eq (joinLines _),
        lines_flowed text legible width offset, Part.MarksHold, passages_eq]
      exact passageLines_again_iff width (lines text) offset
  | code text => exact iff_of_true rfl trivial
  | tags names => exact iff_of_true rfl trivial

theorem Part.reprinted_again_iff (part : Part) (legible : part.Legible) (width offset : Nat) :
    (part.reprinted width offset).reprinted width offset = part.reprinted width offset ↔
      part.MarksHold width := by
  rw [← part.printedLines_again_iff legible width offset]
  cases part with
  | prose text =>
      obtain ⟨held, -⟩ := heldLines_prose text legible width offset
      obtain ⟨first, rest, cut, prose⟩ := held.first
      have single := Part.printedLines_lacks (.prose text) legible '\n' (by decide) (by decide)
        (Part.newline_not_mem_pieces (.prose text) legible.normal) width offset
      obtain ⟨start, others, again, -⟩ := passageLines_shown width offset
        (passageLines width offset (passages text)) ⟨first, by simp [cut], prose.shown⟩
      simp only [Part.reprinted, Part.printedLines, Part.prose.injEq] at single ⊢
      rw [passages_eq (joinLines _), lines_flowed text legible width offset]
      exact joinLines_inj _ _ (by simp [again]) (by simp [cut])
        (passageLines_lacks width offset _ '\n' (by decide) single) single
  | code text => exact iff_of_true rfl rfl
  | tags names => exact iff_of_true rfl rfl

/-! Tag groups. -/

def Part.groups : Part → List (List Text)
  | .prose _ => []
  | .code _ => []
  | .tags names => [names]

theorem arrangeMerged_groups (width offset : Nat) (parts : List Part) :
    (arrangeMerged width offset parts).groups = parts.flatMap Part.groups := by
  induction parts generalizing offset with
  | nil => rfl
  | cons part rest ih =>
      rw [arrangeMerged, Arrangement.append, ih, List.flatMap_cons]
      cases part <;> rfl

theorem reprinted_groups (width offset : Nat) (parts : List Part) :
    (mapFrom (Part.reprinted width) offset parts).flatMap Part.groups =
      parts.flatMap Part.groups := by
  have each (column : Nat) (part : Part) :
      (part.reprinted width column).groups = part.groups := by
    cases part <;> rfl
  cases parts with
  | nil => rfl
  | cons part rest => simp [mapFrom, each, List.flatMap_map]

/-! Both printings. -/

theorem forall_marksHold_mergeTags (width : Nat) (parts : List Part) :
    (∀ part ∈ mergeTags parts, part.MarksHold width) ↔ ∀ part ∈ parts, part.MarksHold width := by
  have onlyProse (others : List Part) : (∀ part ∈ others, part.MarksHold width) ↔
      ∀ text, Part.prose text ∈ others → (Part.prose text).MarksHold width := by
    refine ⟨fun each text member => each _ member, fun each part member => ?_⟩
    cases part with
    | prose text => exact each text member
    | code text => trivial
    | tags names => trivial
  rw [onlyProse, onlyProse]
  exact forall_congr' fun text => by rw [mem_mergeTags_prose]

theorem Comment.printed_again {kind : Kind} (first second : Comment kind) (width : Nat)
    (firstLegible : LegibleParts first.parts) (secondLegible : LegibleParts second.parts)
    (again : second.parts =
      mapFrom (Part.reprinted width) (columns openLead) (mergeTags first.parts)) :
    (second.printed width).groups = (first.printed width).groups ∧
      ((second.printed width).text = (first.printed width).text ↔
        ∀ part ∈ first.parts, part.MarksHold width) := by
  have merged : mergeTags second.parts = second.parts := by
    refine mergeTags_eq_self _ ?_
    rw [again, reprinted_sorts]
    exact (mergeTags_sorts first.parts firstLegible.apart).1
  refine ⟨?_, ?_⟩
  · have groups (comment : Comment kind) :
        (comment.printed width).groups = (mergeTags comment.parts).flatMap Part.groups :=
      arrangeMerged_groups width (columns openLead) (mergeTags comment.parts)
    rw [groups, groups, merged, again, reprinted_groups]
  · rw [← forall_marksHold_mergeTags]
    constructor
    · intro sameText
      obtain ⟨firstBody, firstStripped, -, firstParts⟩ := first.reread width firstLegible
      obtain ⟨secondBody, secondStripped, -, secondParts⟩ := second.reread width secondLegible
      have sameBody : secondBody = firstBody := by
        rw [sameText, firstStripped] at secondStripped
        exact (Option.some.inj secondStripped).symm
      rw [sameBody, firstParts, merged, again, mapFrom_mapFrom] at secondParts
      refine (mapFrom_eq_iff _ _ (Part.MarksHold width) _ _ fun column part member => ?_).mp
        secondParts.symm
      exact part.reprinted_again_iff (firstLegible.merged part member) width column
    · intro marksHold
      have blocks : printedBlocks width second.parts = printedBlocks width first.parts := by
        rw [printedBlocks, merged, again, mapFrom_mapFrom]
        refine (mapFrom_eq_iff _ _ (Part.MarksHold width) _ _ fun column part member => ?_).mpr
          marksHold
        exact part.printedLines_again_iff (firstLegible.merged part member) width column
      rw [first.printed_text width firstLegible, second.printed_text width secondLegible,
        printedLines, printedLines, blocks]

/-- Formatting a formatted text gives its tag groups again, and its text exactly if no list mark
was stranded below a run. -/
theorem reformat_eq_iff (kind : Kind) (text body : Text) (width : Nat)
    (stripped : bodyOf? text = some body) (ended : ReturnsEndLines text) :
    ∃ first again second,
      parse? kind 0 body = .ok first ∧
      (28 * body.length + 38 < columnLimit →
        first.comment.print? ⟨width⟩ = .ok (first.comment.printed width)) ∧
      bodyOf? (first.comment.printed width).text = some again ∧
      parse? kind 0 again = .ok second ∧
      (28 * again.length + 38 < columnLimit →
        second.comment.print? ⟨width⟩ = .ok (second.comment.printed width)) ∧
      (second.comment.printed width).groups = (first.comment.printed width).groups ∧
      ((second.comment.printed width).text = (first.comment.printed width).text ↔
        ∀ part ∈ first.comment.parts, part.MarksHold width) := by
  obtain ⟨first, firstRead, firstComment⟩ := parse?_ok kind 0 body (by omega)
  have firstLegible : LegibleParts first.comment.parts := by
    rw [firstComment]
    exact bodyParts_legible 0 body (returnsEndLines_body text body stripped ended)
  obtain ⟨again, againStripped, againEnded, againParts⟩ := first.comment.reread width firstLegible
  obtain ⟨second, secondRead, secondComment⟩ := parse?_ok kind 0 again (by omega)
  have secondLegible : LegibleParts second.comment.parts := by
    rw [secondComment]
    exact bodyParts_legible 0 again againEnded
  have both := first.comment.printed_again second.comment width firstLegible secondLegible
    (by rw [secondComment, againParts])
  refine ⟨first, again, second, firstRead, ?_, againStripped, secondRead, ?_, both⟩
  · rw [firstComment]
    exact print?_bodyParts kind 0 body width
  · rw [secondComment]
    exact print?_bodyParts kind 0 again width

/-- A bullet with nothing behind it goes to the end of the run above when it is printed again. -/
theorem reformat_stranded :
    ∃ first again second,
      parse? .doc 0 "abc\n- \n".toList = .ok first ∧
      bodyOf? (first.comment.printed 80).text = some again ∧
      parse? .doc 0 again = .ok second ∧
      (second.comment.printed 80).text ≠ (first.comment.printed 80).text := by
  obtain ⟨first, again, second, firstRead, -, stripped, secondRead, -, -, same⟩ :=
    reformat_eq_iff .doc "\x7b-| abc\n- \n-\x7d".toList "abc\n- \n".toList 80 (by decide) (by decide)
  refine ⟨first, again, second, firstRead, stripped, secondRead, fun equal => ?_⟩
  obtain ⟨parsed, read, comment⟩ := parse?_ok .doc 0 "abc\n- \n".toList (by decide)
  have known : parsed = first := Except.ok.inj (read.symm.trans firstRead)
  have holds := same.mp equal (.prose "abc\n- ".toList) (by rw [← known, comment]; decide)
  have cut : passages "abc\n- ".toList = [.run ["abc".toList], .run ["- ".toList]] := by
    decide +kernel
  rw [Part.MarksHold, cut] at holds
  revert holds
  decide

end CommentFormat
