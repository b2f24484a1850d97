import CommentFormat.Layout.Cursor
import CommentFormat.Page

/-! Layout by a stack of frames: each step takes the top frame off and puts back the frames
that are left of it. Documents of any depth are laid out without nested calls. -/

namespace CommentFormat

inductive Frame where
  | laying (indent : Nat) (mode : Mode) (doc : Doc)
  | filling (indent : Nat) (mode : Mode) (items : List Doc)
deriving Repr

structure Step where
  frames : List Frame
  drawn : Drawn
deriving Repr

def Frame.step (width : Nat) (cursor : Cursor) : Frame → Step
  | .laying _ _ .nil => ⟨[], .still cursor⟩
  | .laying _ _ (.text content) => ⟨[], cursor.text content⟩
  | .laying indent _ .hardLine => ⟨[], newLine width indent⟩
  | .laying indent mode .softLine => ⟨[], cursor.softLine width indent mode⟩
  | .laying indent mode (.concat docs) => ⟨docs.map (.laying indent mode), .still cursor⟩
  | .laying indent mode (.nest more inner) =>
      ⟨[.laying (indent + more) mode inner], (Drawn.still cursor).forming (indent + more)⟩
  | .laying indent mode (.group inner) =>
      let choice := cursor.room.choose mode inner 0
      ⟨[.laying indent choice.mode inner], (Drawn.still cursor).forming choice.peak⟩
  | .laying _ _ (.fill []) => ⟨[], .still cursor⟩
  | .laying indent mode (.fill (first :: rest)) =>
      let choice := cursor.room.choose mode first 0
      ⟨[.laying indent choice.mode first, .filling indent mode rest],
        (Drawn.still cursor).forming choice.peak⟩
  | .filling _ _ [] => ⟨[], .still cursor⟩
  | .filling indent mode (next :: rest) =>
      let gap := cursor.gap width indent mode next
      ⟨[.laying indent gap.mode next, .filling indent mode rest], gap.drawn⟩

mutual

def Doc.weight : Doc → Nat
  | .nil => 1
  | .text _ => 1
  | .hardLine => 1
  | .softLine => 1
  | .concat docs => 1 + weightAll docs
  | .nest _ inner => 1 + inner.weight
  | .group inner => 1 + inner.weight
  | .fill items => 1 + weightAll items + items.length

def weightAll : List Doc → Nat
  | [] => 0
  | doc :: rest => doc.weight + weightAll rest

end

def Frame.weight : Frame → Nat
  | .laying _ _ doc => doc.weight
  | .filling _ _ items => 1 + weightAll items + items.length

def stackWeight : List Frame → Nat
  | [] => 0
  | frame :: rest => frame.weight + stackWeight rest

@[simp] theorem stackWeight_nil : stackWeight [] = 0 := rfl

@[simp] theorem stackWeight_cons (frame : Frame) (rest : List Frame) :
    stackWeight (frame :: rest) = frame.weight + stackWeight rest := rfl

@[simp] theorem stackWeight_append (first second : List Frame) :
    stackWeight (first ++ second) = stackWeight first + stackWeight second := by
  induction first with
  | nil => simp
  | cons frame rest ih =>
      rw [List.cons_append, stackWeight_cons, stackWeight_cons, ih]
      omega

theorem stackWeight_docs (indent : Nat) (mode : Mode) (docs : List Doc) :
    stackWeight (docs.map (.laying indent mode)) = weightAll docs := by
  induction docs with
  | nil => rfl
  | cons doc rest ih => simp [Frame.weight, weightAll, ih]

theorem Frame.step_weight (width : Nat) (cursor : Cursor) (frame : Frame) :
    stackWeight (frame.step width cursor).frames < frame.weight := by
  cases frame with
  | laying indent mode doc =>
      cases doc with
      | concat docs => simp [Frame.step, Frame.weight, Doc.weight, stackWeight_docs]
      | fill items =>
          cases items with
          | nil => simp [Frame.step, Frame.weight, Doc.weight, weightAll]
          | cons first rest =>
              simp only [Frame.step, Frame.weight, Doc.weight, weightAll, stackWeight_cons,
                stackWeight_nil, List.length_cons]
              omega
      | _ => simp [Frame.step, Frame.weight, Doc.weight]
  | filling indent mode items =>
      cases items with
      | nil => simp [Frame.step, Frame.weight, weightAll]
      | cons next rest =>
          simp only [Frame.step, Frame.weight, weightAll, stackWeight_cons, stackWeight_nil,
            List.length_cons]
          omega

def layFrames (width : Nat) (frames : List Frame) (cursor : Cursor) : Drawn :=
  match frames with
  | [] => .still cursor
  | frame :: rest =>
      let step := frame.step width cursor
      step.drawn.followedBy (layFrames width (step.frames ++ rest) step.drawn.cursor)
termination_by stackWeight frames
decreasing_by
  have lighter := Frame.step_weight width cursor frame
  simp only [stackWeight_append, stackWeight_cons]
  omega

def Doc.lay (doc : Doc) (width : Nat) : Drawn :=
  layFrames width [.laying 0 .broken doc] (.start width)

def Doc.strokes? (doc : Doc) (page : Page) : Except Fault (List Stroke) :=
  let drawn := doc.lay page.width
  withinColumns drawn.peak drawn.strokes

def Doc.render? (doc : Doc) (page : Page) : Except Fault Text :=
  (doc.strokes? page).map written

end CommentFormat
