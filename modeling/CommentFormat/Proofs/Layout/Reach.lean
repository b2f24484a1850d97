import CommentFormat.Layout.Recursive

/-! How far a layout reaches: no column number is larger than the indentation and the columns of
the whole document together. -/

namespace CommentFormat

mutual

def Doc.nesting : Doc → Nat
  | .nil => 0
  | .text _ => 0
  | .hardLine => 0
  | .softLine => 0
  | .concat docs => nestingAll docs
  | .nest more inner => more + inner.nesting
  | .group inner => inner.nesting
  | .fill items => nestingAll items

def nestingAll : List Doc → Nat
  | [] => 0
  | doc :: rest => max doc.nesting (nestingAll rest)

end

mutual

def Doc.spread : Doc → Nat
  | .nil => 0
  | .text content => columns content
  | .hardLine => 0
  | .softLine => 1
  | .concat docs => spreadAll docs
  | .nest _ inner => inner.spread
  | .group inner => inner.spread
  | .fill items => spreadAll items + (items.length - 1)

def spreadAll : List Doc → Nat
  | [] => 0
  | doc :: rest => doc.spread + spreadAll rest

end

mutual

theorem Doc.flat_le_spread (doc : Doc) :
    doc.flatPeak ≤ doc.spread ∧ ∀ width ∈ doc.flatColumns, width ≤ doc.spread := by
  cases doc with
  | nil => simp [Doc.flatPeak, Doc.flatColumns]
  | text content => simp [Doc.flatPeak, Doc.flatColumns, Doc.spread]
  | hardLine => simp [Doc.flatPeak, Doc.flatColumns]
  | softLine => simp [Doc.flatPeak, Doc.flatColumns, Doc.spread]
  | concat docs =>
      obtain ⟨peak, total⟩ := flatAll_le_spreadAll docs
      exact ⟨by simpa [Doc.flatPeak, Doc.spread] using peak 0, total⟩
  | nest more inner => exact inner.flat_le_spread
  | group inner => exact inner.flat_le_spread
  | fill items =>
      obtain ⟨peak, total⟩ := flatAll_le_spreadAll items
      constructor
      · have bound := peak (items.length - 1)
        simp only [Doc.flatPeak, Doc.spread]
        omega
      · intro width known
        simp only [Doc.flatColumns, addColumns, Option.bind_some, Option.mem_def,
          Option.map_eq_some_iff] at known
        obtain ⟨inner, found, rfl⟩ := known
        have bound := total inner found
        simp only [Doc.spread]
        omega

theorem flatAll_le_spreadAll (docs : List Doc) :
    (∀ total, flatPeakFrom total docs ≤ total + spreadAll docs) ∧
      ∀ width ∈ flatColumnsAll docs, width ≤ spreadAll docs := by
  cases docs with
  | nil => simp [flatPeakFrom, flatColumnsAll, spreadAll]
  | cons doc rest =>
      obtain ⟨docPeak, docTotal⟩ := doc.flat_le_spread
      obtain ⟨restPeak, restTotal⟩ := flatAll_le_spreadAll rest
      constructor
      · intro total
        rw [flatPeakFrom, spreadAll]
        split
        · omega
        · next width known =>
            have here := docTotal width known
            have behind := restPeak (total + width)
            omega
      · intro width known
        simp only [flatColumnsAll, addColumns, Option.mem_def, Option.bind_eq_some_iff,
          Option.map_eq_some_iff] at known
        obtain ⟨here, found, behind, restFound, rfl⟩ := known
        have hereBound := docTotal here found
        have behindBound := restTotal behind restFound
        rw [spreadAll]
        omega

end

structure Drawn.Within (drawn : Drawn) (bound : Nat) : Prop where
  peak : drawn.peak ≤ bound
  used : drawn.cursor.room.used ≤ bound

theorem Drawn.Within.mono {drawn : Drawn} {bound more : Nat} (within : drawn.Within bound)
    (larger : bound ≤ more) : drawn.Within more :=
  ⟨Nat.le_trans within.peak larger, Nat.le_trans within.used larger⟩

theorem Drawn.Within.followedBy {first second : Drawn} {bound : Nat}
    (firstWithin : first.Within bound) (secondWithin : second.Within bound) :
    (first.followedBy second).Within bound :=
  ⟨Nat.max_le.mpr ⟨firstWithin.peak, secondWithin.peak⟩, secondWithin.used⟩

theorem Drawn.Within.forming {drawn : Drawn} {bound column : Nat} (within : drawn.Within bound)
    (small : column ≤ bound) : (drawn.forming column).Within bound :=
  ⟨Nat.max_le.mpr ⟨small, within.peak⟩, within.used⟩

theorem Drawn.within_still (cursor : Cursor) (bound : Nat) (used : cursor.room.used ≤ bound) :
    (Drawn.still cursor).Within bound :=
  ⟨Nat.zero_le _, used⟩

theorem newLine_within (width indent bound : Nat) (small : indent ≤ bound) :
    (newLine width indent).Within bound := by
  refine ⟨small, ?_⟩
  simpa [newLine, Room.startLine, Room.ofWidth] using small

theorem Cursor.draw_within (cursor : Cursor) (stroke : Stroke) (count bound : Nat)
    (small : cursor.room.used + count ≤ bound) : (cursor.draw stroke count).Within bound :=
  ⟨small, small⟩

theorem Cursor.text_within (cursor : Cursor) (content : Text) (bound : Nat)
    (small : cursor.room.used + columns content ≤ bound) : (cursor.text content).Within bound := by
  unfold Cursor.text
  split
  · exact Drawn.within_still cursor bound (by omega)
  · exact cursor.draw_within _ _ bound small

theorem Room.choose_peak_le (room : Room) (outer : Mode) (doc : Doc) (lead : Nat) :
    (room.choose outer doc lead).peak ≤ lead + doc.spread := by
  obtain ⟨peak, total⟩ := doc.flat_le_spread
  unfold Room.choose
  split
  · exact Nat.zero_le _
  · split
    · exact Nat.le_trans peak (Nat.le_add_left _ _)
    · next width known =>
        have bound := total width known
        exact Nat.max_le.mpr ⟨by omega, by omega⟩

theorem Cursor.gap_bounds (cursor : Cursor) (width indent : Nat) (outer : Mode) (item : Doc)
    (limit : Nat) (indented : indent ≤ limit) (used : cursor.room.used ≤ limit) :
    (cursor.gap width indent outer item).drawn.peak ≤ limit + 1 + item.spread ∧
      (cursor.gap width indent outer item).drawn.cursor.room.used ≤ limit + 1 := by
  have beside := cursor.room.choose_peak_le outer item 1
  have below := (Room.startLine width indent).choose_peak_le outer item 0
  unfold Cursor.gap
  simp only
  split
  · have space := cursor.draw_within (.spaces 1) 1 (limit + 1) (by omega)
    exact ⟨Nat.max_le.mpr ⟨by omega, Nat.le_trans space.peak (by omega)⟩, space.used⟩
  · have line := newLine_within width indent limit indented
    exact ⟨Nat.max_le.mpr ⟨Nat.max_le.mpr ⟨by omega, by omega⟩, Nat.le_trans line.peak (by omega)⟩,
      Nat.le_trans line.used (by omega)⟩

mutual

theorem Doc.drawAt_within (width indent : Nat) (mode : Mode) (cursor : Cursor) (doc : Doc)
    (limit : Nat) (indented : indent + doc.nesting ≤ limit) (used : cursor.room.used ≤ limit) :
    (doc.drawAt width indent mode cursor).Within (limit + doc.spread) := by
  cases doc with
  | nil => exact Drawn.within_still cursor _ (by omega)
  | text content => exact cursor.text_within content _ (by simp only [Doc.spread]; omega)
  | hardLine => exact newLine_within width indent _ (by omega)
  | softLine =>
      cases mode with
      | flat => exact cursor.draw_within _ 1 _ (by simp only [Doc.spread]; omega)
      | broken => exact newLine_within width indent _ (by omega)
  | concat docs => exact drawAll_within width indent mode cursor docs limit indented used
  | nest more inner =>
      rw [Doc.nesting] at indented
      exact (inner.drawAt_within width (indent + more) mode cursor limit (by omega) used).forming
        (by omega)
  | group inner =>
      have choice := cursor.room.choose_peak_le mode inner 0
      exact (inner.drawAt_within width indent _ cursor limit indented used).forming
        (by omega)
  | fill items =>
      cases items with
      | nil => exact Drawn.within_still cursor _ (by omega)
      | cons first rest =>
          simp only [Doc.nesting, nestingAll] at indented
          have choice := cursor.room.choose_peak_le mode first 0
          have drawn := first.drawAt_within width indent (cursor.room.choose mode first 0).mode
            cursor limit (by omega) used
          have behind := drawItems_within width indent mode _ rest (limit + first.spread)
            (by omega) drawn.used
          simp only [Doc.spread, spreadAll, List.length_cons]
          exact ((drawn.forming (by omega)).mono (by omega)).followedBy (behind.mono (by omega))

theorem drawAll_within (width indent : Nat) (mode : Mode) (cursor : Cursor) (docs : List Doc)
    (limit : Nat) (indented : indent + nestingAll docs ≤ limit) (used : cursor.room.used ≤ limit) :
    (drawAll width indent mode cursor docs).Within (limit + spreadAll docs) := by
  cases docs with
  | nil => exact Drawn.within_still cursor _ (by omega)
  | cons doc rest =>
      rw [nestingAll] at indented
      have here := doc.drawAt_within width indent mode cursor limit (by omega) used
      have behind := drawAll_within width indent mode _ rest (limit + doc.spread) (by omega)
        here.used
      rw [spreadAll]
      exact (here.mono (by omega)).followedBy (behind.mono (by omega))

theorem drawItems_within (width indent : Nat) (mode : Mode) (cursor : Cursor) (items : List Doc)
    (limit : Nat) (indented : indent + nestingAll items ≤ limit) (used : cursor.room.used ≤ limit) :
    (drawItems width indent mode cursor items).Within (limit + (spreadAll items + items.length)) := by
  cases items with
  | nil => exact Drawn.within_still cursor _ (by omega)
  | cons next rest =>
      rw [nestingAll] at indented
      obtain ⟨gapPeak, gapUsed⟩ := cursor.gap_bounds width indent mode next limit (by omega) used
      have here := next.drawAt_within width indent (cursor.gap width indent mode next).mode
        (cursor.gap width indent mode next).drawn.cursor (limit + 1) (by omega) gapUsed
      have behind := drawItems_within width indent mode _ rest (limit + 1 + next.spread) (by omega)
        here.used
      have both : ((cursor.gap width indent mode next).drawn.followedBy
          (next.drawAt width indent (cursor.gap width indent mode next).mode
            (cursor.gap width indent mode next).drawn.cursor)).Within (limit + 1 + next.spread) :=
        ⟨Nat.max_le.mpr ⟨gapPeak, here.peak⟩, here.used⟩
      rw [spreadAll, List.length_cons]
      exact (both.mono (by omega)).followedBy (behind.mono (by omega))

end

theorem drawAll_intersperse_within (width indent start bound : Nat) (less : start ≤ bound)
    (separator : Doc)
    (breaks : ∀ cursor, (separator.drawAt width indent .broken cursor).Within start)
    (docs : List Doc)
    (each : ∀ doc ∈ docs, ∀ cursor : Cursor, cursor.room.used ≤ start →
      (doc.drawAt width indent .broken cursor).Within bound)
    (cursor : Cursor) (used : cursor.room.used ≤ start) :
    (drawAll width indent .broken cursor (docs.intersperse separator)).Within bound := by
  induction docs generalizing cursor with
  | nil => exact Drawn.within_still cursor bound (by omega)
  | cons doc rest ih =>
      have here := each doc (by simp) cursor used
      cases rest with
      | nil => exact here.followedBy (Drawn.within_still _ bound here.used)
      | cons next later =>
          have gap := breaks (doc.drawAt width indent .broken cursor).cursor
          have behind := ih (fun other member => each other (List.mem_cons_of_mem doc member)) _
            gap.used
          exact here.followedBy ((gap.mono less).followedBy behind)

theorem Doc.lay_peak_le (doc : Doc) (width : Nat) :
    (doc.lay width).peak ≤ doc.nesting + doc.spread := by
  rw [Doc.lay_eq_drawAt]
  exact (doc.drawAt_within width 0 .broken (.start width) doc.nesting (by omega)
    (Nat.zero_le _)).peak

end CommentFormat
