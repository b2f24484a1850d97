import CommentFormat.Proofs.Layout.Narrow

/-! Flat mode: what is laid out flat never has to break, and the flat width that was added up
beforehand is what it then takes of its line. -/

namespace CommentFormat

theorem flatColumnsAll_isSome_iff (docs : List Doc) :
    (flatColumnsAll docs).isSome = true ↔ ∀ doc ∈ docs, doc.flatColumns.isSome = true := by
  induction docs with
  | nil => simp [flatColumnsAll]
  | cons doc rest ih =>
      rw [List.forall_mem_cons, ← ih, flatColumnsAll]
      cases doc.flatColumns <;> cases flatColumnsAll rest <;> simp [addColumns]

theorem Doc.fill_isSome_iff (items : List Doc) :
    (Doc.fill items).flatColumns.isSome = true ↔ ∀ item ∈ items, item.flatColumns.isSome = true := by
  rw [← flatColumnsAll_isSome_iff, Doc.flatColumns]
  cases flatColumnsAll items <;> simp [addColumns]

def Frame.StaysFlat : Frame → Prop
  | .laying _ mode doc => mode = .flat → doc.flatColumns.isSome = true
  | .filling _ mode items => mode = .flat → ∀ item ∈ items, item.flatColumns.isSome = true

theorem Room.choose_staysFlat (room : Room) (outer : Mode) (doc : Doc) (lead : Nat)
    (stays : outer = .flat → doc.flatColumns.isSome = true)
    (chosen : (room.choose outer doc lead).mode = .flat) : doc.flatColumns.isSome = true := by
  cases outer with
  | flat => exact stays rfl
  | broken =>
      obtain ⟨count, flat, -⟩ := room.fits_of_choose doc lead chosen
      rw [flat]
      rfl

theorem Cursor.gap_staysFlat (cursor : Cursor) (width indent : Nat) (outer : Mode) (item : Doc)
    (stays : outer = .flat → item.flatColumns.isSome = true)
    (chosen : (cursor.gap width indent outer item).mode = .flat) :
    item.flatColumns.isSome = true := by
  unfold Cursor.gap at chosen
  dsimp only at chosen
  split at chosen
  · next beside => exact cursor.room.choose_staysFlat outer item 1 stays beside
  · exact Room.choose_staysFlat _ outer item 0 stays chosen

theorem Frame.step_staysFlat (width : Nat) (cursor : Cursor) (frame : Frame)
    (stays : frame.StaysFlat) : ∀ next ∈ (frame.step width cursor).frames, next.StaysFlat := by
  cases frame with
  | laying indent mode doc =>
      cases doc with
      | concat docs =>
          intro next member
          obtain ⟨doc, inDocs, rfl⟩ := List.mem_map.mp member
          intro flat
          exact (flatColumnsAll_isSome_iff docs).mp (stays flat) doc inDocs
      | nest more inner =>
          intro next member
          rw [List.mem_singleton.mp member]
          exact stays
      | group inner =>
          intro next member
          rw [List.mem_singleton.mp member]
          exact cursor.room.choose_staysFlat mode inner 0 stays
      | fill items =>
          cases items with
          | nil => simp [Frame.step]
          | cons first rest =>
              have each := fun flat => List.forall_mem_cons.mp
                ((Doc.fill_isSome_iff (first :: rest)).mp (stays flat))
              intro next member
              simp only [Frame.step, List.mem_cons, List.not_mem_nil, or_false] at member
              rcases member with rfl | rfl
              · exact cursor.room.choose_staysFlat mode first 0 fun flat => (each flat).1
              · exact fun flat => (each flat).2
      | _ => simp [Frame.step]
  | filling indent mode items =>
      cases items with
      | nil => simp [Frame.step]
      | cons item rest =>
          have each := fun flat => List.forall_mem_cons.mp (stays flat)
          intro next member
          simp only [Frame.step, List.mem_cons, List.not_mem_nil, or_false] at member
          rcases member with rfl | rfl
          · exact cursor.gap_staysFlat width indent mode item fun flat => (each flat).1
          · exact fun flat => (each flat).2

theorem Reached.staysFlat {width : Nat} {doc : Doc} {layout : Layout}
    (reached : Reached width doc layout) : ∀ frame ∈ layout.frames, frame.StaysFlat := by
  induction reached with
  | start =>
      intro frame member
      rw [List.mem_singleton.mp member]
      intro flat
      cases flat
  | @step frame rest cursor strokes before ih =>
      intro next member
      rcases List.mem_append.mp member with here | below
      · exact frame.step_staysFlat width cursor (ih frame (by simp)) next here
      · exact ih next (List.mem_cons_of_mem frame below)

theorem newline_not_mem_written (strokes : List Stroke) (unbroken : .newline ∉ strokes)
    (single : ∀ content, .text content ∈ strokes → '\n' ∉ content) : '\n' ∉ written strokes := by
  intro inside
  obtain ⟨stroke, member, here⟩ := List.mem_flatMap.mp inside
  cases stroke with
  | text content => exact single content member here
  | newline => exact unbroken member
  | spaces count => simp [Stroke.written] at here

theorem newline_not_mem_flushed (cursor : Cursor) (count : Nat) :
    .newline ∉ cursor.flushed count := by
  unfold Cursor.flushed
  split
  · simp
  · cases cursor.pending <;> simp [pendingSpaces]

/-- In every state on the way: nothing that must break is in flat mode, so no line is broken there. A
document on top of the stack that is in flat mode has a flat width, and takes as many columns of the
line as that before the frames below it go on. A group in broken mode is laid out flat if and only if
its flat width is at most what the line, with the indentation that is still to come, leaves of the
page. -/
theorem Doc.lay_flat (width : Nat) (doc : Doc) (unbroken : doc.unbroken = true) (layout : Layout)
    (reached : Reached width doc layout) :
    (∀ frame ∈ layout.frames, frame.StaysFlat) ∧
      (∀ indent inner rest, layout.frames = .laying indent .flat inner :: rest →
        inner ≠ .hardLine ∧
          ∃ count emitted, inner.flatColumns = some count ∧
            let drawn := layFrames width [.laying indent .flat inner] layout.cursor
            drawn.strokes = layout.cursor.flushed count ++ emitted ∧
              '\n' ∉ written drawn.strokes ∧ columns (written emitted) = count ∧
              drawn.cursor.room.used = layout.cursor.room.used + count ∧
              ∃ turns, (Layout.turn width)^[turns] layout =
                ⟨rest, drawn.cursor, layout.strokes ++ drawn.strokes⟩) ∧
      ∀ indent inner rest, layout.frames = .laying indent .broken (.group inner) :: rest →
        ∃ mode, layout.turn width =
            ⟨.laying indent mode inner :: rest, layout.cursor, layout.strokes⟩ ∧
          (mode = .flat ↔ ∃ count, inner.flatColumns = some count ∧ count ≤
            width - (columns (lastLine (written layout.strokes)) + layout.cursor.pending.getD 0)) := by
  obtain ⟨tracks, whole⟩ := reached.tracks unbroken
  have stays := reached.staysFlat
  obtain ⟨frames, cursor, strokes⟩ := layout
  refine ⟨stays, ?_, ?_⟩
  · rintro indent inner rest rfl
    have flat := stays (.laying indent .flat inner) (by simp) rfl
    obtain ⟨count, isCount⟩ := Option.isSome_iff_exists.mp flat
    refine ⟨?_, ?_⟩
    · rintro rfl
      simp [Doc.flatColumns] at isCount
    · have takes := inner.drawAt_takes width indent cursor count isCount
      rw [← layFrames_doc] at takes
      obtain ⟨emitted, isEmitted, columns, noLine, -⟩ := takes.draws
      obtain ⟨turns, -, ends⟩ :=
        exists_turns_above width [.laying indent .flat inner] rest cursor strokes
      have later := layFrames_tracks width [.laying indent .flat inner] cursor strokes tracks
        (by simpa using whole (.laying indent .flat inner) (by simp))
      refine ⟨count, emitted, isCount, isEmitted, ?_, columns, ?_, turns, ends⟩
      · apply newline_not_mem_written
        · rw [isEmitted, List.mem_append, not_or]
          exact ⟨newline_not_mem_flushed cursor count, noLine⟩
        · intro content member
          exact (later.texts content (List.mem_append_right strokes member)).2
      · rw [takes.ends, Cursor.after_room, Room.take_used]
  · rintro indent inner rest rfl
    refine ⟨(cursor.room.choose .broken inner 0).mode, by simp [Layout.turn, Frame.step, Drawn.still,
      Drawn.forming], ?_⟩
    have free : cursor.room.free =
        width - (columns (lastLine (written strokes)) + cursor.pending.getD 0) := by
      rw [tracks.free, tracks.used]
    dsimp only
    rw [← free]
    constructor
    · intro chosen
      obtain ⟨count, isCount, fits⟩ := cursor.room.fits_of_choose inner 0 chosen
      exact ⟨count, isCount, by omega⟩
    · rintro ⟨count, isCount, fits⟩
      exact cursor.room.choose_fits inner 0 count isCount (by omega) .broken

theorem Doc.lay_flat_nested :
    let inner : Doc := .concat [.text ['a'], .softLine, .fill [.text ['b'], .text ['c']]]
    let doc : Doc := .nest 2 (.concat [.hardLine, .group inner])
    let cursor : Cursor := ⟨⟨5, 2⟩, some 2⟩
    doc.unbroken = true ∧
      Reached 7 doc ⟨[.laying 2 .broken (.group inner)], cursor, [.newline]⟩ ∧
      Reached 7 doc ⟨[.laying 2 .flat inner], cursor, [.newline]⟩ ∧
      (∃ mode, Layout.turn 7 ⟨[.laying 2 .broken (.group inner)], cursor, [.newline]⟩ =
          ⟨[.laying 2 mode inner], cursor, [.newline]⟩ ∧
        (mode = .flat ↔ ∃ count, inner.flatColumns = some count ∧ count ≤ 7 - (0 + 2))) ∧
      ∃ count emitted, inner.flatColumns = some count ∧
        (layFrames 7 [.laying 2 .flat inner] cursor).strokes = .spaces 2 :: emitted ∧
        columns (written emitted) = count := by
  intro inner doc cursor
  have opened : Reached 7 doc _ := .start
  have atGroup : Reached 7 doc ⟨[.laying 2 .broken (.group inner)], cursor, [.newline]⟩ :=
    opened.step.step.step
  have inGroup : Reached 7 doc ⟨[.laying 2 .flat inner], cursor, [.newline]⟩ := atGroup.step
  obtain ⟨-, -, chooses⟩ := Doc.lay_flat 7 doc rfl _ atGroup
  obtain ⟨-, takes, -⟩ := Doc.lay_flat 7 doc rfl _ inGroup
  obtain ⟨-, count, emitted, isCount, strokes, -, drawn, -⟩ := takes 2 inner [] rfl
  have five : inner.flatColumns = some 5 := by decide
  have isFive : count = 5 := Option.some.inj (isCount.symm.trans five)
  rw [isFive] at strokes
  exact ⟨rfl, atGroup, inGroup, chooses 2 inner [] rfl, count, emitted, isCount, strokes, drawn⟩

end CommentFormat
