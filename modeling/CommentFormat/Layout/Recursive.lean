import CommentFormat.Layout.Machine

/-! Layout by recursion on the document. It draws what the stack of frames draws, and is the
form in which layouts are reasoned about. -/

namespace CommentFormat

mutual

def Doc.drawAt (width indent : Nat) (mode : Mode) (cursor : Cursor) : Doc → Drawn
  | .nil => .still cursor
  | .text content => cursor.text content
  | .hardLine => newLine width indent
  | .softLine => cursor.softLine width indent mode
  | .concat docs => drawAll width indent mode cursor docs
  | .nest more inner => (inner.drawAt width (indent + more) mode cursor).forming (indent + more)
  | .group inner =>
      let choice := cursor.room.choose mode inner 0
      (inner.drawAt width indent choice.mode cursor).forming choice.peak
  | .fill items => drawFill width indent mode cursor items

def drawAll (width indent : Nat) (mode : Mode) (cursor : Cursor) : List Doc → Drawn
  | [] => .still cursor
  | doc :: rest =>
      let drawn := doc.drawAt width indent mode cursor
      drawn.followedBy (drawAll width indent mode drawn.cursor rest)

def drawFill (width indent : Nat) (mode : Mode) (cursor : Cursor) : List Doc → Drawn
  | [] => .still cursor
  | first :: rest =>
      let choice := cursor.room.choose mode first 0
      let drawn := (first.drawAt width indent choice.mode cursor).forming choice.peak
      drawn.followedBy (drawItems width indent mode drawn.cursor rest)

def drawItems (width indent : Nat) (mode : Mode) (cursor : Cursor) : List Doc → Drawn
  | [] => .still cursor
  | next :: rest =>
      let gap := cursor.gap width indent mode next
      let drawn := gap.drawn.followedBy (next.drawAt width indent gap.mode gap.drawn.cursor)
      drawn.followedBy (drawItems width indent mode drawn.cursor rest)

end

def Frame.draw (width : Nat) (cursor : Cursor) : Frame → Drawn
  | .laying indent mode doc => doc.drawAt width indent mode cursor
  | .filling indent mode items => drawItems width indent mode cursor items

def drawFrames (width : Nat) (cursor : Cursor) : List Frame → Drawn
  | [] => .still cursor
  | frame :: rest =>
      let drawn := frame.draw width cursor
      drawn.followedBy (drawFrames width drawn.cursor rest)

theorem drawFrames_append (width : Nat) (cursor : Cursor) (first second : List Frame) :
    drawFrames width cursor (first ++ second) =
      (drawFrames width cursor first).followedBy
        (drawFrames width (drawFrames width cursor first).cursor second) := by
  induction first generalizing cursor with
  | nil => simp [drawFrames]
  | cons frame rest ih => simp [drawFrames, ih, Drawn.followedBy_assoc]

theorem drawFrames_docs (width indent : Nat) (mode : Mode) (cursor : Cursor) (docs : List Doc) :
    drawFrames width cursor (docs.map (.laying indent mode)) =
      drawAll width indent mode cursor docs := by
  induction docs generalizing cursor with
  | nil => simp [drawFrames, drawAll]
  | cons doc rest ih => simp [drawFrames, drawAll, Frame.draw, ih]

theorem Frame.step_draw (width : Nat) (cursor : Cursor) (frame : Frame) :
    (frame.step width cursor).drawn.followedBy
        (drawFrames width (frame.step width cursor).drawn.cursor (frame.step width cursor).frames) =
      frame.draw width cursor := by
  cases frame with
  | laying indent mode doc =>
      cases doc with
      | concat docs => simp [Frame.step, Frame.draw, Doc.drawAt, drawFrames_docs]
      | fill items =>
          cases items with
          | nil => simp [Frame.step, Frame.draw, Doc.drawAt, drawFill, drawFrames]
          | cons first rest =>
              simp [Frame.step, Frame.draw, Doc.drawAt, drawFill, drawFrames,
                Drawn.forming_followedBy]
      | _ => simp [Frame.step, Frame.draw, Doc.drawAt, drawFrames, Drawn.forming_followedBy]
  | filling indent mode items =>
      cases items with
      | nil => simp [Frame.step, Frame.draw, drawItems, drawFrames]
      | cons next rest =>
          simp [Frame.step, Frame.draw, drawItems, drawFrames, Drawn.followedBy_assoc]

theorem layFrames_eq_drawFrames (width : Nat) (frames : List Frame) (cursor : Cursor) :
    layFrames width frames cursor = drawFrames width cursor frames := by
  fun_induction layFrames width frames cursor with
  | case1 cursor => rfl
  | case2 cursor frame rest step ih =>
      rw [ih, drawFrames_append, ← Drawn.followedBy_assoc, drawFrames, ← Frame.step_draw]
      rfl

theorem Doc.lay_eq_drawAt (doc : Doc) (width : Nat) :
    doc.lay width = doc.drawAt width 0 .broken (.start width) := by
  simp [Doc.lay, layFrames_eq_drawFrames, drawFrames, Frame.draw]

end CommentFormat
