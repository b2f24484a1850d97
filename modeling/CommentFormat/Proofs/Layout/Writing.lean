import CommentFormat.Proofs.Layout.Wrap

/-! Writing: the text that laying out a document leaves behind. After a line break nothing
depends on what stood before it, so documents with breaks between them are written one by one. -/

namespace CommentFormat

def lineStart (width indent : Nat) : Cursor :=
  ⟨Room.startLine width indent, some indent⟩

def Doc.writes (width indent : Nat) (cursor : Cursor) (doc : Doc) : Text :=
  written (doc.drawAt width indent .broken cursor).strokes

def docTexts (width indent : Nat) (cursor : Cursor) : List Doc → List Text
  | [] => []
  | doc :: rest =>
      doc.writes width indent cursor :: rest.map (Doc.writes width indent (lineStart width indent))

structure BreaksLine (width indent : Nat) (separator : Doc) (gap : Text) : Prop where
  writes : ∀ cursor, separator.writes width indent cursor = gap
  lands : ∀ cursor,
    (separator.drawAt width indent .broken cursor).cursor = lineStart width indent

theorem hardLine_breaksLine (width indent : Nat) :
    BreaksLine width indent .hardLine ['\n'] := by
  constructor <;> intro cursor <;> rfl

theorem drawAll_intersperse (width indent : Nat) (separator : Doc) (gap : Text)
    (breaks : BreaksLine width indent separator gap) (docs : List Doc) (cursor : Cursor) :
    written (drawAll width indent .broken cursor (docs.intersperse separator)).strokes =
      gap.intercalate (docTexts width indent cursor docs) := by
  induction docs generalizing cursor with
  | nil => rfl
  | cons doc rest ih =>
      cases rest with
      | nil => simp [drawAll, docTexts, Doc.writes, Drawn.followedBy, Drawn.still]
      | cons next later =>
          have behind := ih (lineStart width indent)
          have gapText := breaks.writes (doc.drawAt width indent .broken cursor).cursor
          rw [Doc.writes] at gapText
          simp only [docTexts, List.intersperse, drawAll, Drawn.followedBy, written_append,
            List.map_cons, List.intercalate_cons_cons, breaks.lands, gapText] at behind ⊢
          rw [behind]
          simp [Doc.writes]

theorem Doc.writes_join (width indent : Nat) (separator : Doc) (gap : Text)
    (breaks : BreaksLine width indent separator gap) (docs : List Doc) (cursor : Cursor) :
    (Doc.join docs separator).writes width indent cursor =
      gap.intercalate (docTexts width indent cursor docs) := by
  rw [Doc.writes, Doc.join, Doc.drawAt, drawAll_intersperse width indent separator gap breaks]

/-! Text. -/

def Cursor.lead (cursor : Cursor) : Text :=
  written (pendingSpaces cursor.pending)

theorem lineStart_lead (width indent : Nat) :
    (lineStart width indent).lead = List.replicate indent ' ' := by
  simp [Cursor.lead, lineStart, pendingSpaces, Stroke.written]

theorem Doc.writes_text (width indent : Nat) (cursor : Cursor) (content : Text) :
    (Doc.text content).writes width indent cursor =
      if content = [] then [] else cursor.lead ++ content := by
  rw [Doc.writes, Doc.drawAt, Cursor.text]
  split
  · rfl
  · simp [Cursor.draw, Cursor.lead, Stroke.written]

theorem Doc.writes_text_flush (width indent : Nat) (cursor : Cursor) (content : Text)
    (flush : cursor.lead = []) : (Doc.text content).writes width indent cursor = content := by
  rw [Doc.writes_text, flush]
  split
  · next empty => exact empty.symm
  · rfl

theorem Doc.writes_lines (width : Nat) (cursor : Cursor) (flush : cursor.lead = [])
    (texts : List Text) : (Doc.lines texts).writes width 0 cursor = joinLines texts := by
  have fresh : (lineStart width 0).lead = [] := lineStart_lead width 0
  have each : docTexts width 0 cursor (texts.map .text) = texts := by
    cases texts with
    | nil => rfl
    | cons first rest =>
        simp only [List.map_cons, docTexts, Doc.writes_text_flush width 0 cursor first flush,
          List.map_map, List.cons.injEq, true_and]
        exact (List.map_congr_left fun text _ => Doc.writes_text_flush width 0 _ text fresh).trans
          (List.map_id' rest)
  rw [Doc.lines, Doc.writes_join width 0 _ _ (hardLine_breaksLine width 0), each]
  rfl

/-! Words. -/

structure Cursor.At (cursor : Cursor) (width column : Nat) : Prop where
  room : cursor.room.On width
  used : cursor.room.used = column
  flush : cursor.lead = []

theorem lineStart_at (width : Nat) : (lineStart width 0).At width 0 :=
  ⟨Room.startLine_on width 0, rfl, lineStart_lead width 0⟩

theorem Cursor.At.text {cursor : Cursor} {width column : Nat} (placed : cursor.At width column)
    (content : Text) : (cursor.text content).cursor.At width (column + content.length) := by
  rw [Cursor.text]
  split
  · next empty => simpa [empty] using placed
  · exact ⟨Room.take_on width _ _ placed.room, by simp [Cursor.draw, placed.used, columns], rfl⟩

theorem Cursor.At.space {cursor : Cursor} {width column : Nat} (placed : cursor.At width column) :
    cursor.space.cursor.At width (column + 1) :=
  ⟨Room.take_on width _ 1 placed.room, by simp [Cursor.space, Cursor.draw, placed.used], rfl⟩

theorem Cursor.At.fits_iff {cursor : Cursor} {width column : Nat} (placed : cursor.At width column)
    (item : Text) :
    cursor.room.fits (1 + columns item) = true ↔ column + 1 + item.length ≤ width := by
  have free := placed.room
  rw [Room.On, placed.used] at free
  simp only [Room.fits, decide_eq_true_eq, free, columns]
  omega

/-! What one item of a fill adds to a layout, beside the items before it or on a line of its own. -/

theorem drawItems_beside (width indent : Nat) (cursor : Cursor) (item : Text) (rest : List Doc)
    (fits : cursor.room.fits (1 + columns item) = true) :
    drawItems width indent .broken cursor (.text item :: rest) =
      (cursor.space.followedBy ((cursor.space.cursor.text item).followedBy
        (drawItems width indent .broken (cursor.space.cursor.text item).cursor rest))).forming
          (1 + columns item) := by
  rw [drawItems]
  simp [Cursor.gap, Room.choose, Doc.flatColumns, Doc.flatPeak, fits, Doc.drawAt,
    Drawn.forming_followedBy, Drawn.followedBy_assoc]

theorem drawItems_below (width indent : Nat) (cursor : Cursor) (item : Text) (rest : List Doc)
    (exceeds : ¬ cursor.room.fits (1 + columns item) = true) :
    drawItems width indent .broken cursor (.text item :: rest) =
      ((newLine width indent).followedBy (((lineStart width indent).text item).followedBy
        (drawItems width indent .broken ((lineStart width indent).text item).cursor rest))).forming
          (1 + columns item) := by
  rw [drawItems]
  simp [Cursor.gap, Room.choose, Doc.flatColumns, Doc.flatPeak, exceeds, Doc.drawAt,
    Drawn.forming_followedBy, Drawn.followedBy_assoc, newLine, lineStart]

theorem drawItems_writes (width : Nat) (items : List Text) (cursor : Cursor) (line : Text)
    (column : Nat) (placed : cursor.At width column) :
    line ++ written (drawItems width 0 .broken cursor (items.map .text)).strokes =
      joinLines (wrapFrom width line column items) := by
  induction items generalizing cursor line column with
  | nil => simp [drawItems, Drawn.still, wrapFrom]
  | cons item rest ih =>
      have fits := placed.fits_iff item
      rw [wrapFrom, List.map_cons]
      by_cases beside : column + 1 + item.length ≤ width
      · have behind := ih _ (line ++ ' ' :: item) _ (placed.space.text item)
        have drawn : written cursor.space.strokes = [' '] := by
          simpa [Cursor.space, Cursor.draw, Cursor.lead, Stroke.written] using placed.flush
        have text := Doc.writes_text_flush width 0 cursor.space.cursor item rfl
        rw [Doc.writes, Doc.drawAt] at text
        rw [if_pos beside, ← behind, drawItems_beside width 0 cursor item _ (fits.mpr beside)]
        simp [Drawn.followedBy, Drawn.forming, drawn, text]
      · have behind := ih _ item _ ((lineStart_at width).text item)
        have text := Doc.writes_text_flush width 0 (lineStart width 0) item (lineStart_at width).flush
        obtain ⟨first, others, wrapped, -⟩ := wrapFrom_starts width rest item item.length
        rw [Nat.zero_add] at behind
        rw [Doc.writes, Doc.drawAt] at text
        rw [if_neg beside, wrapped, joinLines_cons_cons, ← wrapped, ← behind,
          drawItems_below width 0 cursor item _ (mt fits.mp beside)]
        simp [Drawn.followedBy, Drawn.forming, newLine, Stroke.written, text]

theorem Doc.writes_words (width : Nat) (items : List Text) (cursor : Cursor) (column : Nat)
    (placed : cursor.At width column) :
    (Doc.words items).writes width 0 cursor = joinLines (wrapItems width column items) := by
  cases items with
  | nil => rfl
  | cons item rest =>
      have behind := drawItems_writes width rest _ item _ (placed.text item)
      have text := Doc.writes_text_flush width 0 cursor item placed.flush
      rw [Doc.writes, Doc.drawAt] at text
      rw [wrapItems, ← behind]
      simp [Doc.words, Doc.writes, Doc.drawAt, drawFill, Drawn.followedBy, Drawn.forming, text]

end CommentFormat
