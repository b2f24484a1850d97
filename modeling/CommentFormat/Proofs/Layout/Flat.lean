import CommentFormat.Layout.Recursive

/-! Flat layout: a document that is laid out flat takes its flat width on the line it starts on. -/

namespace CommentFormat

def Cursor.after (cursor : Cursor) (count : Nat) : Cursor :=
  if count = 0 then cursor else ⟨cursor.room.take count, none⟩

@[simp] theorem Cursor.after_zero (cursor : Cursor) : cursor.after 0 = cursor := rfl

theorem Cursor.after_room (cursor : Cursor) (count : Nat) :
    (cursor.after count).room = cursor.room.take count := by
  unfold Cursor.after
  split
  · next nothing => simp [nothing, Room.take]
  · rfl

theorem Cursor.after_after (cursor : Cursor) (first second : Nat) :
    (cursor.after first).after second = cursor.after (first + second) := by
  by_cases nothing : second = 0
  · simp [nothing]
  · have more : first + second ≠ 0 := by omega
    rw [Cursor.after, if_neg nothing, Cursor.after_room, Cursor.after, if_neg more]
    simp [Room.take, Nat.sub_sub, Nat.add_assoc]

theorem Cursor.text_cursor (cursor : Cursor) (content : Text) :
    (cursor.text content).cursor = cursor.after (columns content) := by
  cases content <;> rfl

theorem Cursor.space_cursor (cursor : Cursor) : cursor.space.cursor = cursor.after 1 := rfl

/-! Columns of one line. -/

def Cursor.flushed (cursor : Cursor) (count : Nat) : List Stroke :=
  if count = 0 then [] else pendingSpaces cursor.pending

theorem Cursor.flushed_after (cursor : Cursor) (first second : Nat) (drawn : first ≠ 0) :
    (cursor.after first).flushed second = [] := by
  rw [Cursor.flushed, Cursor.after, if_neg drawn]
  split <;> rfl

/-- Behind the indentation that was to come the drawing takes `count` columns of its line and
breaks no line. If it takes none it draws nothing. -/
structure Drawn.Takes (drawn : Drawn) (cursor : Cursor) (count : Nat) : Prop where
  ends : drawn.cursor = cursor.after count
  draws : ∃ emitted, drawn.strokes = cursor.flushed count ++ emitted ∧
    columns (written emitted) = count ∧ .newline ∉ emitted ∧ (count = 0 → emitted = [])

theorem Drawn.takes_still (cursor : Cursor) : (Drawn.still cursor).Takes cursor 0 :=
  ⟨rfl, [], rfl, rfl, by simp, fun _ => rfl⟩

theorem Drawn.Takes.forming {drawn : Drawn} {cursor : Cursor} {count : Nat}
    (takes : drawn.Takes cursor count) (column : Nat) : (drawn.forming column).Takes cursor count :=
  ⟨takes.ends, takes.draws⟩

theorem Drawn.Takes.followedBy {first second : Drawn} {cursor : Cursor} {here behind : Nat}
    (takes : first.Takes cursor here) (later : second.Takes first.cursor behind) :
    (first.followedBy second).Takes cursor (here + behind) := by
  obtain ⟨emitted, isEmitted, count, single, nothing⟩ := takes.draws
  obtain ⟨more, isMore, moreCount, moreSingle, moreNothing⟩ := later.draws
  rw [takes.ends] at isMore
  refine ⟨by rw [Drawn.followedBy_cursor, later.ends, takes.ends, Cursor.after_after], ?_⟩
  refine ⟨emitted ++ more, ?_, ?_, ?_, ?_⟩
  · by_cases zero : here = 0
    · rw [nothing zero] at isEmitted ⊢
      rw [Drawn.followedBy, isEmitted, isMore, zero, Cursor.after_zero, Nat.zero_add]
      simp [Cursor.flushed]
    · have more : here + behind ≠ 0 := by omega
      rw [Drawn.followedBy, isEmitted, isMore, cursor.flushed_after here behind zero, Cursor.flushed,
        Cursor.flushed, if_neg zero, if_neg more, List.nil_append, List.append_assoc]
  · simp only [written_append, columns, List.length_append] at count moreCount ⊢
    omega
  · simp [single, moreSingle]
  · intro zero
    rw [nothing (by omega), moreNothing (by omega), List.append_nil]

theorem Cursor.draw_takes (cursor : Cursor) (stroke : Stroke) (shown : stroke.written ≠ [])
    (single : stroke ≠ .newline) :
    (cursor.draw stroke (columns stroke.written)).Takes cursor (columns stroke.written) := by
  have some : columns stroke.written ≠ 0 := by simpa [columns] using shown
  refine ⟨by rw [Cursor.after, if_neg some]; rfl, [stroke], ?_, by simp, ?_, ?_⟩
  · rw [Cursor.flushed, if_neg some]
    rfl
  · simpa using fun same => single same.symm
  · intro zero
    exact absurd zero some

theorem Cursor.text_takes (cursor : Cursor) (content : Text) :
    (cursor.text content).Takes cursor (columns content) := by
  by_cases empty : content = []
  · subst empty
    exact Drawn.takes_still cursor
  · rw [Cursor.text, if_neg empty]
    exact cursor.draw_takes (.text content) empty (by simp)

theorem Cursor.space_takes (cursor : Cursor) : cursor.space.Takes cursor 1 :=
  cursor.draw_takes (.spaces 1) (by simp [Stroke.written]) (by simp)

/-! Inside what is flat everything is flat. -/

@[simp] theorem Room.choose_flat (room : Room) (doc : Doc) (lead : Nat) :
    room.choose .flat doc lead = ⟨.flat, 0⟩ := rfl

@[simp] theorem Cursor.gap_flat (cursor : Cursor) (width indent : Nat) (item : Doc) :
    cursor.gap width indent .flat item = ⟨cursor.space.forming 0, .flat⟩ := rfl

theorem Room.choose_fits (room : Room) (doc : Doc) (lead count : Nat)
    (flat : doc.flatColumns = some count) (fits : lead + count ≤ room.free) (outer : Mode) :
    (room.choose outer doc lead).mode = .flat := by
  cases outer with
  | flat => rfl
  | broken => simp [Room.choose, flat, Room.fits, fits]

theorem Room.fits_of_choose (room : Room) (doc : Doc) (lead : Nat)
    (chosen : (room.choose .broken doc lead).mode = .flat) :
    ∃ count, doc.flatColumns = some count ∧ lead + count ≤ room.free := by
  cases flat : doc.flatColumns with
  | none => simp [Room.choose, flat] at chosen
  | some count => exact ⟨count, rfl, by simpa [Room.choose, flat, Room.fits] using chosen⟩

theorem addColumns_eq_some_iff (first second : Option Nat) (total : Nat) :
    addColumns first second = some total ↔
      ∃ left right, first = some left ∧ second = some right ∧ left + right = total := by
  cases first <;> cases second <;> simp [addColumns]

mutual

theorem Doc.drawAt_takes (width indent : Nat) (cursor : Cursor) (doc : Doc) (count : Nat)
    (flat : doc.flatColumns = some count) :
    (doc.drawAt width indent .flat cursor).Takes cursor count := by
  cases doc with
  | nil =>
      obtain rfl : 0 = count := by simpa [Doc.flatColumns] using flat
      exact Drawn.takes_still cursor
  | text content =>
      obtain rfl : columns content = count := by simpa [Doc.flatColumns] using flat
      exact cursor.text_takes content
  | hardLine => simp [Doc.flatColumns] at flat
  | softLine =>
      obtain rfl : 1 = count := by simpa [Doc.flatColumns] using flat
      exact cursor.space_takes
  | concat docs => exact drawAll_takes width indent cursor docs count flat
  | nest more inner => exact (inner.drawAt_takes width (indent + more) cursor count flat).forming _
  | group inner => exact (inner.drawAt_takes width indent cursor count flat).forming _
  | fill items =>
      rw [Doc.flatColumns, addColumns_eq_some_iff] at flat
      obtain ⟨gaps, total, isGaps, isTotal, rfl⟩ := flat
      cases items with
      | nil =>
          obtain rfl : 0 = gaps := by simpa using isGaps
          obtain rfl : 0 = total := by simpa [flatColumnsAll] using isTotal
          exact Drawn.takes_still cursor
      | cons first rest =>
          rw [flatColumnsAll, addColumns_eq_some_iff] at isTotal
          obtain ⟨here, behind, isHere, isBehind, rfl⟩ := isTotal
          have gapCount : rest.length = gaps := by simpa using isGaps
          have drawn := (first.drawAt_takes width indent cursor here isHere).forming 0
          have later := drawItems_takes width indent
            ((first.drawAt width indent .flat cursor).forming 0).cursor rest behind isBehind
          have total : gaps + (here + behind) = here + (rest.length + behind) := by omega
          rw [total]
          exact drawn.followedBy later

theorem drawAll_takes (width indent : Nat) (cursor : Cursor) (docs : List Doc) (count : Nat)
    (flat : flatColumnsAll docs = some count) :
    (drawAll width indent .flat cursor docs).Takes cursor count := by
  cases docs with
  | nil =>
      obtain rfl : 0 = count := by simpa [flatColumnsAll] using flat
      exact Drawn.takes_still cursor
  | cons doc rest =>
      rw [flatColumnsAll, addColumns_eq_some_iff] at flat
      obtain ⟨here, behind, isHere, isBehind, rfl⟩ := flat
      exact (doc.drawAt_takes width indent cursor here isHere).followedBy
        (drawAll_takes width indent _ rest behind isBehind)

theorem drawItems_takes (width indent : Nat) (cursor : Cursor) (items : List Doc) (count : Nat)
    (flat : flatColumnsAll items = some count) :
    (drawItems width indent .flat cursor items).Takes cursor (items.length + count) := by
  cases items with
  | nil =>
      obtain rfl : 0 = count := by simpa [flatColumnsAll] using flat
      exact Drawn.takes_still cursor
  | cons next rest =>
      rw [flatColumnsAll, addColumns_eq_some_iff] at flat
      obtain ⟨here, behind, isHere, isBehind, rfl⟩ := flat
      have item := (cursor.space_takes.forming 0).followedBy
        (next.drawAt_takes width indent (cursor.space.forming 0).cursor here isHere)
      have total : (next :: rest).length + (here + behind) = 1 + here + (rest.length + behind) := by
        simp only [List.length_cons]
        omega
      rw [total]
      exact item.followedBy (drawItems_takes width indent _ rest behind isBehind)

end

theorem Doc.drawAt_flat (width indent : Nat) (cursor : Cursor) (doc : Doc) (count : Nat)
    (flat : doc.flatColumns = some count) :
    (doc.drawAt width indent .flat cursor).cursor = cursor.after count :=
  (doc.drawAt_takes width indent cursor count flat).ends

end CommentFormat
