import CommentFormat.Layout.Recursive
import CommentFormat.Proofs.Layout.Column
import Mathlib.Logic.Function.Iterate

/-! Running a layout: working the stack off turn by turn comes to an end, and has then drawn what
recursion on the documents draws. -/

namespace CommentFormat

/-- One turn: the top frame is taken off, the frames that its step leaves are put in its place, and
what the step draws goes behind what was drawn before. -/
def Layout.turn (width : Nat) (layout : Layout) : Layout :=
  match layout.frames with
  | [] => layout
  | frame :: rest =>
      let step := frame.step width layout.cursor
      ⟨step.frames ++ rest, step.drawn.cursor, layout.strokes ++ step.drawn.strokes⟩

theorem exists_turns_above (width : Nat) (frames below : List Frame) (cursor : Cursor)
    (strokes : List Stroke) :
    ∃ turns ≤ stackWeight frames, (Layout.turn width)^[turns] ⟨frames ++ below, cursor, strokes⟩ =
      ⟨below, (layFrames width frames cursor).cursor,
        strokes ++ (layFrames width frames cursor).strokes⟩ := by
  fun_induction layFrames width frames cursor generalizing strokes with
  | case1 cursor => exact ⟨0, Nat.le_refl 0, by simp [Drawn.still]⟩
  | case2 cursor frame rest step ih =>
      obtain ⟨turns, few, ends⟩ := ih (strokes ++ step.drawn.strokes)
      have lighter : stackWeight step.frames < frame.weight := Frame.step_weight width cursor frame
      rw [stackWeight_append] at few
      rw [List.append_assoc, List.append_assoc] at ends
      refine ⟨turns + 1, ?_, ?_⟩
      · rw [stackWeight_cons]
        omega
      · rw [Function.iterate_succ_apply]
        exact ends

theorem exists_turns (width : Nat) (frames : List Frame) (cursor : Cursor) (strokes : List Stroke) :
    ∃ turns ≤ stackWeight frames, (Layout.turn width)^[turns] ⟨frames, cursor, strokes⟩ =
      ⟨[], (layFrames width frames cursor).cursor,
        strokes ++ (layFrames width frames cursor).strokes⟩ := by
  simpa using exists_turns_above width frames [] cursor strokes

theorem layFrames_doc (width indent : Nat) (mode : Mode) (doc : Doc) (cursor : Cursor) :
    layFrames width [.laying indent mode doc] cursor = doc.drawAt width indent mode cursor := by
  simp [layFrames_eq_drawFrames, drawFrames, Frame.draw]

def layInTurn (width indent : Nat) (mode : Mode) (before : Drawn) (docs : List Doc) : Drawn :=
  docs.foldl (fun drawn doc =>
    drawn.followedBy (layFrames width [.laying indent mode doc] drawn.cursor)) before

theorem layInTurn_eq_drawAll (width indent : Nat) (mode : Mode) (docs : List Doc) (before : Drawn) :
    layInTurn width indent mode before docs =
      before.followedBy (drawAll width indent mode before.cursor docs) := by
  induction docs generalizing before with
  | nil => simp [layInTurn, drawAll]
  | cons doc rest ih =>
      have behind := ih (before.followedBy (doc.drawAt width indent mode before.cursor))
      rw [layInTurn] at behind ⊢
      rw [List.foldl_cons, layFrames_doc, behind, Drawn.followedBy_assoc, drawAll]
      rfl

/-- From every stack and every cursor the loop ends, after no more turns than the stack weighs, with
the strokes, the cursor and the largest column of a recursion that goes through the frames from top
to bottom. A concatenation is laid out document by document. -/
theorem layFrames_refines (width : Nat) (frames : List Frame) (cursor : Cursor)
    (strokes : List Stroke) :
    (∃ turns ≤ stackWeight frames, (Layout.turn width)^[turns] ⟨frames, cursor, strokes⟩ =
        ⟨[], (drawFrames width cursor frames).cursor,
          strokes ++ (drawFrames width cursor frames).strokes⟩) ∧
      layFrames width frames cursor = drawFrames width cursor frames ∧
      ∀ indent mode docs, layFrames width [.laying indent mode (.concat docs)] cursor =
        layInTurn width indent mode (.still cursor) docs := by
  refine ⟨?_, layFrames_eq_drawFrames width frames cursor, ?_⟩
  · rw [← layFrames_eq_drawFrames]
    exact exists_turns width frames cursor strokes
  · intro indent mode docs
    rw [layFrames_doc, layInTurn_eq_drawAll, Drawn.still_followedBy]
    rfl

end CommentFormat
