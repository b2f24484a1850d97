import CommentFormat.Layout.Machine
import Mathlib.Data.List.DropRight

/-! Columns: after every step of a layout the cursor knows how far the line it stands on has been
written, and how much of the page is left beside it. -/

namespace CommentFormat

def lastLine (text : Text) : Text :=
  text.rtakeWhile (· ≠ '\n')

theorem lastLine_append (text more : Text) (single : '\n' ∉ more) :
    lastLine (text ++ more) = lastLine text ++ more := by
  have inside : ∀ character ∈ more.reverse, decide (character ≠ '\n') = true := by
    intro character member
    simp only [decide_eq_true_eq]
    rintro rfl
    exact single (List.mem_reverse.mp member)
  rw [lastLine, lastLine, List.rtakeWhile, List.rtakeWhile, List.reverse_append,
    List.takeWhile_append_of_pos inside, List.reverse_append, List.reverse_reverse]

theorem lastLine_newline (text : Text) : lastLine (text ++ ['\n']) = [] := by
  simp [lastLine]

/-! Documents whose texts stay on their lines. -/

mutual

def Doc.unbroken : Doc → Bool
  | .nil => true
  | .text content => onOneLine content
  | .hardLine => true
  | .softLine => true
  | .concat docs => unbrokenAll docs
  | .nest _ inner => inner.unbroken
  | .group inner => inner.unbroken
  | .fill items => unbrokenAll items

def unbrokenAll : List Doc → Bool
  | [] => true
  | doc :: rest => doc.unbroken && unbrokenAll rest

end

theorem unbrokenAll_iff (docs : List Doc) :
    unbrokenAll docs = true ↔ ∀ doc ∈ docs, doc.unbroken = true := by
  induction docs with
  | nil => simp [unbrokenAll]
  | cons doc rest ih => simp [unbrokenAll, ih]

def Frame.unbroken : Frame → Bool
  | .laying _ _ doc => doc.unbroken
  | .filling _ _ items => unbrokenAll items

theorem Frame.step_unbroken (width : Nat) (cursor : Cursor) (frame : Frame)
    (unbroken : frame.unbroken = true) :
    ∀ next ∈ (frame.step width cursor).frames, next.unbroken = true := by
  cases frame with
  | laying indent mode doc =>
      cases doc with
      | concat docs =>
          intro next member
          obtain ⟨doc, inDocs, rfl⟩ := List.mem_map.mp member
          exact (unbrokenAll_iff docs).mp unbroken doc inDocs
      | nest more inner => simpa [Frame.step, Frame.unbroken, Doc.unbroken] using unbroken
      | group inner => simpa [Frame.step, Frame.unbroken, Doc.unbroken] using unbroken
      | fill items =>
          cases items with
          | nil => simp [Frame.step]
          | cons first rest =>
              simpa [Frame.step, Frame.unbroken, Doc.unbroken, unbrokenAll] using unbroken
      | _ => simp [Frame.step]
  | filling indent mode items =>
      cases items with
      | nil => simp [Frame.step]
      | cons next rest => simpa [Frame.step, Frame.unbroken, unbrokenAll] using unbroken

theorem stack_step_unbroken (width : Nat) (cursor : Cursor) (frame : Frame) (rest : List Frame)
    (unbroken : ∀ next ∈ frame :: rest, next.unbroken = true) :
    ∀ next ∈ (frame.step width cursor).frames ++ rest, next.unbroken = true := by
  intro next member
  rcases List.mem_append.mp member with here | below
  · exact frame.step_unbroken width cursor (unbroken frame (by simp)) next here
  · exact unbroken next (List.mem_cons_of_mem frame below)

/-! One step. -/

/-- All that a step can do to a cursor: nothing, a stroke on the line it stands on, or a new
line. -/
inductive Moves (width : Nat) (cursor : Cursor) : List Stroke → Cursor → Prop where
  | still : Moves width cursor [] cursor
  | text (content : Text) (shown : content ≠ []) (single : '\n' ∉ content) :
      Moves width cursor (pendingSpaces cursor.pending ++ [.text content])
        ⟨cursor.room.take (columns content), none⟩
  | space :
      Moves width cursor (pendingSpaces cursor.pending ++ [.spaces 1]) ⟨cursor.room.take 1, none⟩
  | line (indent : Nat) :
      Moves width cursor [.newline] ⟨Room.startLine width indent, some indent⟩

theorem Cursor.gap_moves (cursor : Cursor) (width indent : Nat) (outer : Mode) (item : Doc) :
    Moves width cursor (cursor.gap width indent outer item).drawn.strokes
      (cursor.gap width indent outer item).drawn.cursor := by
  unfold Cursor.gap
  dsimp only
  split
  · exact .space
  · exact .line indent

theorem Frame.step_moves (width : Nat) (cursor : Cursor) (frame : Frame)
    (unbroken : frame.unbroken = true) :
    Moves width cursor (frame.step width cursor).drawn.strokes
      (frame.step width cursor).drawn.cursor := by
  cases frame with
  | laying indent mode doc =>
      cases doc with
      | text content =>
          have single : '\n' ∉ content := (onOneLine_iff content).mp unbroken
          simp only [Frame.step, Cursor.text]
          split
          · exact .still
          · next shown => exact .text content shown single
      | hardLine => exact .line indent
      | softLine =>
          cases mode with
          | flat => exact .space
          | broken => exact .line indent
      | fill items =>
          cases items with
          | nil => exact .still
          | cons first rest => exact .still
      | _ => exact .still
  | filling indent mode items =>
      cases items with
      | nil => exact .still
      | cons next rest => exact cursor.gap_moves width indent mode next

/-- The cursor fits the strokes drawn so far: the used columns are those of the last line and of
the indentation that is still to come, the free ones are what is left of the page, and every text
is a piece of one line. -/
structure Tracks (width : Nat) (strokes : List Stroke) (cursor : Cursor) : Prop where
  used : cursor.room.used = columns (lastLine (written strokes)) + cursor.pending.getD 0
  free : cursor.room.free = width - cursor.room.used
  texts : ∀ content, .text content ∈ strokes → content ≠ [] ∧ '\n' ∉ content

theorem start_tracks (width : Nat) : Tracks width [] (.start width) :=
  ⟨rfl, rfl, by simp⟩

theorem text_mem_pendingSpaces (pending : Option Nat) (content : Text) :
    .text content ∉ pendingSpaces pending := by
  cases pending <;> simp [pendingSpaces]

section Step

variable {width : Nat} {strokes : List Stroke} {cursor : Cursor}

theorem Tracks.draw (tracks : Tracks width strokes cursor) (stroke : Stroke)
    (single : '\n' ∉ stroke.written)
    (whole : ∀ content, stroke = .text content → content ≠ [] ∧ '\n' ∉ content) :
    Tracks width (strokes ++ (pendingSpaces cursor.pending ++ [stroke]))
      ⟨cursor.room.take (columns stroke.written), none⟩ := by
  have flushed : written (pendingSpaces cursor.pending) =
      List.replicate (cursor.pending.getD 0) ' ' := by
    cases cursor.pending <;> simp [pendingSpaces, Stroke.written]
  refine ⟨?_, Room.take_on width cursor.room _ tracks.free, ?_⟩
  · have added : '\n' ∉ List.replicate (cursor.pending.getD 0) ' ' ++ stroke.written := by
      simp [single]
    have line : lastLine (written (strokes ++ (pendingSpaces cursor.pending ++ [stroke]))) =
        lastLine (written strokes) ++
          (List.replicate (cursor.pending.getD 0) ' ' ++ stroke.written) := by
      rw [← lastLine_append _ _ added]
      simp [flushed]
    simp only [line, Room.take_used, tracks.used, columns, List.length_append,
      List.length_replicate, Option.getD_none]
    omega
  · intro content member
    rcases List.mem_append.mp member with before | here
    · exact tracks.texts content before
    · rcases List.mem_append.mp here with indentation | drawn
      · exact absurd indentation (text_mem_pendingSpaces cursor.pending content)
      · exact whole content (List.mem_singleton.mp drawn).symm

theorem Tracks.line (tracks : Tracks width strokes cursor) (indent : Nat) :
    Tracks width (strokes ++ [.newline]) ⟨Room.startLine width indent, some indent⟩ := by
  refine ⟨?_, Room.startLine_on width indent, ?_⟩
  · simp [Room.startLine, Room.ofWidth, Stroke.written, lastLine_newline]
  · intro content member
    exact tracks.texts content (by simpa using member)

theorem Moves.tracks {drawn : List Stroke} {after : Cursor}
    (moves : Moves width cursor drawn after) (tracks : Tracks width strokes cursor) :
    Tracks width (strokes ++ drawn) after := by
  cases moves with
  | still => simpa using tracks
  | text content shown single =>
      refine tracks.draw (.text content) single ?_
      rintro other ⟨⟩
      exact ⟨shown, single⟩
  | space => exact tracks.draw (.spaces 1) (by simp [Stroke.written]) (by simp)
  | line indent => exact tracks.line indent

end Step

/-! A whole run. -/

structure Layout where
  frames : List Frame
  cursor : Cursor
  strokes : List Stroke

/-- The states in which laying the document out takes its next frame off the stack, and the one
in which none is left. -/
inductive Reached (width : Nat) (doc : Doc) : Layout → Prop where
  | start : Reached width doc ⟨[.laying 0 .broken doc], .start width, []⟩
  | step {frame : Frame} {rest : List Frame} {cursor : Cursor} {strokes : List Stroke}
      (before : Reached width doc ⟨frame :: rest, cursor, strokes⟩) :
      Reached width doc ⟨(frame.step width cursor).frames ++ rest,
        (frame.step width cursor).drawn.cursor,
        strokes ++ (frame.step width cursor).drawn.strokes⟩

theorem reached_layFrames (width : Nat) (doc : Doc) (frames : List Frame) (cursor : Cursor)
    (strokes : List Stroke) (reached : Reached width doc ⟨frames, cursor, strokes⟩) :
    Reached width doc ⟨[], (layFrames width frames cursor).cursor,
      strokes ++ (layFrames width frames cursor).strokes⟩ := by
  fun_induction layFrames width frames cursor generalizing strokes with
  | case1 cursor => simpa [Drawn.still] using reached
  | case2 cursor frame rest step ih =>
      have later := ih _ reached.step
      rwa [List.append_assoc] at later

theorem Reached.tracks {width : Nat} {doc : Doc} {layout : Layout}
    (reached : Reached width doc layout) (unbroken : doc.unbroken = true) :
    Tracks width layout.strokes layout.cursor ∧
      ∀ frame ∈ layout.frames, frame.unbroken = true := by
  induction reached with
  | start => exact ⟨start_tracks width, by simpa [Frame.unbroken] using unbroken⟩
  | @step frame rest cursor strokes before ih =>
      obtain ⟨tracks, whole⟩ := ih
      have frameWhole := whole frame (by simp)
      exact ⟨(frame.step_moves width cursor frameWhole).tracks tracks,
        stack_step_unbroken width cursor frame rest whole⟩

/-- Every state on the way tracks its column, and the way ends with what the layout draws. -/
theorem Doc.lay_tracks (width : Nat) (doc : Doc) (unbroken : doc.unbroken = true) :
    (∀ layout, Reached width doc layout → Tracks width layout.strokes layout.cursor) ∧
      Reached width doc ⟨[], (doc.lay width).cursor, (doc.lay width).strokes⟩ := by
  constructor
  · intro layout reached
    exact (reached.tracks unbroken).1
  · exact reached_layFrames width doc [.laying 0 .broken doc] (.start width) [] .start

theorem Doc.lay_tracks_pending :
    let doc : Doc := .concat [.text ['a', 'b'], .nest 4 (.fill [.hardLine, .text ['c']])]
    doc.unbroken = true ∧
      Tracks 3 [.text ['a', 'b'], .newline] ⟨⟨0, 4⟩, some 4⟩ ∧
      Tracks 3 (doc.lay 3).strokes (doc.lay 3).cursor := by
  obtain ⟨each, last⟩ := Doc.lay_tracks 3
    (.concat [.text ['a', 'b'], .nest 4 (.fill [.hardLine, .text ['c']])]) (by decide)
  refine ⟨by decide, ?_, each _ last⟩
  have opened : Reached 3
      (.concat [.text ['a', 'b'], .nest 4 (.fill [.hardLine, .text ['c']])]) _ := .start
  exact each _ opened.step.step.step.step.step

end CommentFormat
