import CommentFormat.Proofs.Print.Blocks

/-! Printing writes the blocks of a comment between its delimiters, and what is read from there is
the printed comment. -/

namespace CommentFormat

theorem Doc.writes_nest (width indent more : Nat) (cursor : Cursor) (inner : Doc) :
    (Doc.nest more inner).writes width indent cursor = inner.writes width (indent + more) cursor := by
  simp [Doc.writes, Doc.drawAt, Drawn.forming]

theorem joinLines_flatten (groups : List (List Text)) (shown : ∀ group ∈ groups, group ≠ []) :
    joinLines groups.flatten = joinLines (groups.map joinLines) := by
  induction groups with
  | nil => rfl
  | cons group rest ih =>
      have restShown := fun other member => shown other (List.mem_cons_of_mem group member)
      cases rest with
      | nil => simp
      | cons next later =>
          have nextShown : (next :: later).flatten ≠ [] := by simp [shown next (by simp)]
          rw [List.flatten_cons, joinLines_append _ _ (shown group (by simp)) nextShown,
            ih restShown]
          simp

theorem passagesOf_linesAt_ne_nil (lines : List Text) :
    ∀ passage ∈ passagesOf lines, ∀ width offset, passage.linesAt width offset ≠ [] := by
  intro passage member width offset
  rcases of_mem_passagesOf lines passage member with rfl | ⟨line, rest, later, shown, begins⟩
  · simp [Passage.linesAt]
  · obtain ⟨first, others, cut, -⟩ := begins.linesAt_shown shown width offset
    simp [cut]

theorem Passage.doc_writes (width : Nat) (cursor : Cursor) (column : Nat)
    (placed : cursor.At width column) (passage : Passage) :
    passage.doc.writes width 0 cursor = joinLines (passage.linesAt width column) := by
  cases passage with
  | blank => rfl
  | run lines => exact Doc.writes_words width (runItems lines) cursor column placed
  | heading line =>
      rw [Passage.linesAt, joinLines_singleton]
      exact Doc.writes_text_flush width 0 cursor _ placed.flush
  | fenced lines => exact Doc.writes_lines width cursor placed.flush lines

theorem joinLines_passageLines (lines : List Text) (width column : Nat) :
    joinLines (passageLines width column (passagesOf lines)) =
      joinLines (mapFrom (fun start passage => joinLines (passage.linesAt width start)) column
        (passagesOf lines)) := by
  have shown := passagesOf_linesAt_ne_nil lines
  generalize passagesOf lines = found at shown
  cases found with
  | nil => rfl
  | cons passage rest =>
      have groups : passageLines width column (passage :: rest) =
          (mapFrom (Passage.linesAt width) column (passage :: rest)).flatten := by
        rw [passageLines, mapFrom, List.flatMap_def, List.flatten_cons]
      rw [groups, joinLines_flatten]
      · simp [mapFrom, Function.comp_def]
      · intro group member
        obtain ⟨start, other, inFound, rfl⟩ := mem_mapFrom _ _ _ _ member
        exact shown other inFound width start

theorem flowProse_writes (width : Nat) (cursor : Cursor) (column : Nat)
    (placed : cursor.At width column) (text : Text) :
    (flowProse text).writes width 0 cursor =
      joinLines (passageLines width column (passages text)) := by
  have texts : docTexts width 0 cursor ((passages text).map Passage.doc) =
      mapFrom (fun start passage => joinLines (passage.linesAt width start)) column
        (passages text) := by
    cases passages text with
    | nil => rfl
    | cons passage rest =>
        simp only [List.map_cons, docTexts, Passage.doc_writes width cursor column placed, mapFrom,
          List.map_map, List.cons.injEq, true_and]
        exact List.map_congr_left fun other _ =>
          Passage.doc_writes width _ 0 (lineStart_at width) other
  rw [flowProse, Doc.writes_join width 0 _ _ (hardLine_breaksLine width 0), texts, passages_eq,
    joinLines_passageLines]
  rfl

theorem verbatimDoc_writes (width : Nat) (cursor : Cursor) (flush : cursor.lead = []) (text : Text) :
    (verbatimDoc text).writes width 0 cursor =
      joinLines ((text.splitOn '\n').map behindMargin) := by
  have first (line : Text) :
      (if line = [] then Doc.nil else .text (margin ++ line)).writes width indentStep cursor =
        behindMargin line := by
    unfold behindMargin
    split
    · rfl
    · exact Doc.writes_text_flush width indentStep cursor _ flush
  have other (line : Text) :
      (lineDoc line).writes width indentStep (lineStart width indentStep) = behindMargin line := by
    unfold lineDoc behindMargin
    split
    · rfl
    · next shown => rw [Doc.writes_text, if_neg shown, lineStart_lead, margin]
  rw [verbatimDoc, Doc.writes_nest, Nat.zero_add,
    Doc.writes_join width indentStep _ _ (hardLine_breaksLine width indentStep)]
  cases text.splitOn '\n' with
  | nil => rfl
  | cons line rest =>
      have below : rest.map (Doc.writes width indentStep (lineStart width indentStep) ∘ lineDoc) =
          rest.map behindMargin := List.map_congr_left fun line _ => other line
      rw [verbatimLines, docTexts, first, List.map_map, below]
      rfl

/-! The text of a whole comment. -/

def printedBlocks (width : Nat) (parts : List Part) : List (List Text) :=
  mapFrom (Part.printedLines width) (columns openLead) (mergeTags parts)

def printedLines (width : Nat) (parts : List Part) : List Text :=
  [[]].intercalate (printedBlocks width parts)

theorem arrangePart_writes (width offset : Nat) (cursor : Cursor) (placed : cursor.At width offset)
    (part : Part) :
    ∃ doc, (arrangePart width offset part).parts.map ArrangedPart.doc = [doc] ∧
      doc.writes width 0 cursor = joinLines (part.printedLines width offset) := by
  cases part with
  | prose text => exact ⟨_, rfl, flowProse_writes width cursor offset placed text⟩
  | code text => exact ⟨_, rfl, verbatimDoc_writes width cursor placed.flush text⟩
  | tags names => exact ⟨_, rfl, Doc.writes_lines width cursor placed.flush _⟩

theorem arrangeMerged_writes (width : Nat) (parts : List Part) (offset : Nat) (cursor : Cursor)
    (placed : cursor.At width offset) :
    docTexts width 0 cursor ((arrangeMerged width offset parts).parts.map ArrangedPart.doc) =
      (mapFrom (Part.printedLines width) offset parts).map joinLines := by
  induction parts generalizing offset cursor with
  | nil => rfl
  | cons part rest ih =>
      obtain ⟨doc, docs, text⟩ := arrangePart_writes width offset cursor placed part
      have behind := ih 0 (lineStart width 0) (lineStart_at width)
      have below (docs : List Doc) : docs.map (Doc.writes width 0 (lineStart width 0)) =
          docTexts width 0 (lineStart width 0) docs := by
        cases docs <;> rfl
      rw [arrangeMerged, Arrangement.append, List.map_append, docs, List.singleton_append, docTexts,
        text, below, behind, mapFrom, List.map_cons, mapFrom_zero]

theorem blankLine_breaksLine (width : Nat) : BreaksLine width 0 blankLine ['\n', '\n'] := by
  constructor <;> intro cursor <;> rfl

theorem start_at (width : Nat) : (Cursor.start width).At width 0 :=
  ⟨Room.ofWidth_on width, rfl, rfl⟩

theorem Arrangement.doc_writes (width : Nat) (parts : List Part) :
    written ((arrangeMerged width (columns openLead) parts).doc.lay width).strokes =
      openLead ++ (['\n', '\n'].intercalate
        ((mapFrom (Part.printedLines width) (columns openLead) parts).map joinLines) ++
          '\n' :: closeMark) := by
  have opened := (start_at width).text openLead
  rw [Nat.zero_add] at opened
  have lead := Doc.writes_text_flush width 0 (.start width) openLead rfl
  have close := Doc.writes_text_flush width 0 (lineStart width 0) closeMark (lineStart_at width).flush
  have blocks := arrangeMerged_writes width parts (columns openLead) _ opened
  have body := Doc.writes_join width 0 _ _ (blankLine_breaksLine width)
    ((arrangeMerged width (columns openLead) parts).parts.map ArrangedPart.doc)
    ((Cursor.start width).text openLead).cursor
  rw [blocks] at body
  rw [Doc.lay_eq_drawAt, ← body]
  simp only [Doc.writes, Doc.drawAt, lineStart] at lead close
  simp only [Arrangement.doc, Doc.drawAt, drawAll, Drawn.followedBy, Drawn.still, written_append,
    Doc.writes, newLine, written_cons, Stroke.written, List.append_nil, lead, close,
    List.cons_append, List.nil_append]

theorem Comment.printed_text {kind : Kind} (comment : Comment kind) (width : Nat)
    (legible : LegibleParts comment.parts) :
    (comment.printed width).text =
      openLead ++ (joinLines (printedLines width comment.parts) ++ '\n' :: closeMark) := by
  have shown : ∀ block ∈ printedBlocks width comment.parts, block ≠ [] := by
    intro block member
    obtain ⟨column, part, inParts, rfl⟩ := mem_mapFrom _ _ _ _ member
    exact (part.readsAs_printedLines (legible.merged part inParts) width column).nonempty
  rw [printedLines, joinLines_intercalate _ shown]
  exact Arrangement.doc_writes width (mergeTags comment.parts)

end CommentFormat
