import CommentFormat.Proofs.Layout.Reach
import CommentFormat.Proofs.Layout.Running

/-! Checked sums: measuring and layout with a check on every sum of columns as it is formed. Nothing
is refused as long as the indentation and the columns of the whole document can be kept together. -/

namespace CommentFormat

def sum? (first second : Nat) : Except Fault Nat :=
  withinColumns (first + second) (first + second)

mutual

/-- The flat width, added up from left to right as far as the first document that must break. -/
def Doc.measure? : Doc → Except Fault (Option Nat)
  | .nil => .ok (some 0)
  | .text content => .ok (some (columns content))
  | .hardLine => .ok none
  | .softLine => .ok (some 1)
  | .concat docs => measureFrom? 0 docs
  | .nest _ inner => inner.measure?
  | .group inner => inner.measure?
  | .fill items => measureFrom? (items.length - 1) items

def measureFrom? (total : Nat) : List Doc → Except Fault (Option Nat)
  | [] => .ok (some total)
  | doc :: rest => do
      match ← doc.measure? with
      | none => return none
      | some width => measureFrom? (← sum? total width) rest

end

def Room.choose? (room : Room) (outer : Mode) (doc : Doc) (lead : Nat) : Except Fault Mode :=
  match outer with
  | .flat => .ok .flat
  | .broken => do
      match ← doc.measure? with
      | none => return .broken
      | some width => return if room.fits (← sum? lead width) then .flat else .broken

def Drawn.leaving (frames : List Frame) (drawn : Drawn) : Layout :=
  ⟨frames, drawn.cursor, drawn.strokes⟩

def Cursor.draw? (cursor : Cursor) (stroke : Stroke) (count : Nat) : Except Fault Layout := do
  let room ← cursor.room.take? count
  return ⟨[], ⟨room, none⟩, pendingSpaces cursor.pending ++ [stroke]⟩

def newLine? (width indent : Nat) : Except Fault Layout := do
  let room ← (Room.ofWidth width).take? indent
  return ⟨[], ⟨room, some indent⟩, [.newline]⟩

def Cursor.gap? (cursor : Cursor) (width indent : Nat) (outer : Mode) (item : Doc) :
    Except Fault (Layout × Mode) := do
  match ← cursor.room.choose? outer item 1 with
  | .flat => return (← cursor.draw? (.spaces 1) 1, .flat)
  | .broken =>
      let line ← newLine? width indent
      return (line, ← line.cursor.room.choose? outer item 0)

def Frame.step? (width : Nat) (cursor : Cursor) : Frame → Except Fault Layout
  | .laying _ _ .nil => .ok ⟨[], cursor, []⟩
  | .laying _ _ (.text content) =>
      if content = [] then .ok ⟨[], cursor, []⟩
      else cursor.draw? (.text content) (columns content)
  | .laying indent _ .hardLine => newLine? width indent
  | .laying _ .flat .softLine => cursor.draw? (.spaces 1) 1
  | .laying indent .broken .softLine => newLine? width indent
  | .laying indent mode (.concat docs) => .ok ⟨docs.map (.laying indent mode), cursor, []⟩
  | .laying indent mode (.nest more inner) => do
      return ⟨[.laying (← sum? indent more) mode inner], cursor, []⟩
  | .laying indent mode (.group inner) => do
      return ⟨[.laying indent (← cursor.room.choose? mode inner 0) inner], cursor, []⟩
  | .laying _ _ (.fill []) => .ok ⟨[], cursor, []⟩
  | .laying indent mode (.fill (first :: rest)) => do
      let chosen ← cursor.room.choose? mode first 0
      return ⟨[.laying indent chosen first, .filling indent mode rest], cursor, []⟩
  | .filling _ _ [] => .ok ⟨[], cursor, []⟩
  | .filling indent mode (next :: rest) => do
      let (gap, chosen) ← cursor.gap? width indent mode next
      return ⟨[.laying indent chosen next, .filling indent mode rest], gap.cursor, gap.strokes⟩

def Layout.turn? (width : Nat) (layout : Layout) : Except Fault Layout :=
  match layout.frames with
  | [] => .ok layout
  | frame :: rest => do
      let left ← frame.step? width layout.cursor
      return ⟨left.frames ++ rest, left.cursor, layout.strokes ++ left.strokes⟩

def Layout.turns? (width : Nat) : Nat → Layout → Except Fault Layout
  | 0, layout => .ok layout
  | turns + 1, layout => do
      let next ← layout.turn? width
      next.turns? width turns

def Doc.lay? (doc : Doc) (width : Nat) : Except Fault Layout :=
  Layout.turns? width doc.weight ⟨[.laying 0 .broken doc], .start width, []⟩

/-! A step whose largest sum can be kept passes all its checks. -/

theorem sum?_ok (first second : Nat) (kept : first + second < columnLimit) :
    sum? first second = .ok (first + second) :=
  (withinColumns_eq_ok_iff _ _ _).mpr ⟨kept, rfl⟩

theorem Room.take?_ok (room : Room) (count : Nat) (kept : room.used + count < columnLimit) :
    room.take? count = .ok (room.take count) :=
  (withinColumns_eq_ok_iff _ _ _).mpr ⟨kept, rfl⟩

theorem le_flatPeakFrom (total : Nat) (docs : List Doc) : total ≤ flatPeakFrom total docs := by
  induction docs generalizing total with
  | nil => exact Nat.le_refl total
  | cons doc rest ih =>
      rw [flatPeakFrom]
      split
      · exact Nat.le_max_left _ _
      · next width known =>
          have behind := ih (total + width)
          omega

mutual

theorem Doc.measure?_ok (doc : Doc) (kept : doc.flatPeak < columnLimit) :
    doc.measure? = .ok doc.flatColumns := by
  cases doc with
  | nil => rfl
  | text content => rfl
  | hardLine => rfl
  | softLine => rfl
  | concat docs =>
      rw [Doc.measure?, Doc.flatColumns, measureFrom?_ok 0 docs kept]
      simp [addColumns]
  | nest more inner => exact inner.measure?_ok kept
  | group inner => exact inner.measure?_ok kept
  | fill items => exact measureFrom?_ok (items.length - 1) items kept

theorem measureFrom?_ok (total : Nat) (docs : List Doc)
    (kept : flatPeakFrom total docs < columnLimit) :
    measureFrom? total docs = .ok (addColumns (some total) (flatColumnsAll docs)) := by
  cases docs with
  | nil => rfl
  | cons doc rest =>
      rw [flatPeakFrom] at kept
      rw [measureFrom?, flatColumnsAll]
      cases known : doc.flatColumns with
      | none =>
          simp only [known] at kept
          rw [doc.measure?_ok (by omega), known]
          rfl
      | some width =>
          simp only [known] at kept
          have reached := le_flatPeakFrom (total + width) rest
          have added := sum?_ok total width (by omega)
          have behind := measureFrom?_ok (total + width) rest (by omega)
          rw [doc.measure?_ok (by omega), known]
          simp only [bind, Except.bind, added, behind]
          cases flatColumnsAll rest <;> simp [addColumns, Nat.add_assoc]

end

theorem Room.choose?_ok (room : Room) (outer : Mode) (doc : Doc) (lead : Nat)
    (kept : (room.choose outer doc lead).peak < columnLimit) :
    room.choose? outer doc lead = .ok (room.choose outer doc lead).mode := by
  cases outer with
  | flat => rfl
  | broken =>
      unfold Room.choose at kept ⊢
      cases known : doc.flatColumns with
      | none =>
          simp only [known] at kept
          rw [Room.choose?, doc.measure?_ok kept, known]
          rfl
      | some width =>
          simp only [known, Nat.max_lt] at kept
          simp only [Room.choose?, doc.measure?_ok kept.1, known, sum?_ok lead width kept.2, bind,
            Except.bind]
          rfl

theorem Cursor.draw?_ok (cursor : Cursor) (stroke : Stroke) (count : Nat)
    (kept : (cursor.draw stroke count).peak < columnLimit) :
    cursor.draw? stroke count = .ok ((cursor.draw stroke count).leaving []) := by
  rw [Cursor.draw?, cursor.room.take?_ok count kept]
  rfl

theorem newLine?_ok (width indent : Nat) (kept : indent < columnLimit) :
    newLine? width indent = .ok ((newLine width indent).leaving []) := by
  have taken := (Room.ofWidth width).take?_ok indent (by simpa [Room.ofWidth] using kept)
  rw [newLine?, taken]
  rfl

theorem Cursor.gap?_ok (cursor : Cursor) (width indent : Nat) (outer : Mode) (item : Doc)
    (kept : (cursor.gap width indent outer item).drawn.peak < columnLimit) :
    cursor.gap? width indent outer item =
      .ok ((cursor.gap width indent outer item).drawn.leaving [],
        (cursor.gap width indent outer item).mode) := by
  unfold Cursor.gap at kept ⊢
  cases chosen : (cursor.room.choose outer item 1).mode with
  | flat =>
      simp only [chosen, Drawn.forming, Nat.max_lt] at kept
      simp only [Cursor.gap?, cursor.room.choose?_ok outer item 1 kept.1, chosen,
        cursor.draw?_ok (.spaces 1) 1 kept.2, bind, Except.bind]
      rfl
  | broken =>
      simp only [chosen, Drawn.forming, Nat.max_lt] at kept
      obtain ⟨⟨beside, below⟩, line⟩ := kept
      have belowOk := (Room.startLine width indent).choose?_ok outer item 0 below
      simp only [Cursor.gap?, cursor.room.choose?_ok outer item 1 beside, chosen,
        newLine?_ok width indent line, bind, Except.bind]
      simp only [Drawn.leaving, newLine, belowOk]
      rfl

theorem Frame.step?_ok (width : Nat) (cursor : Cursor) (frame : Frame)
    (kept : (frame.step width cursor).drawn.peak < columnLimit) :
    frame.step? width cursor =
      .ok ((frame.step width cursor).drawn.leaving (frame.step width cursor).frames) := by
  cases frame with
  | laying indent mode doc =>
      cases doc with
      | nil => rfl
      | text content =>
          simp only [Frame.step, Frame.step?, Cursor.text] at kept ⊢
          split
          · rfl
          · next shown =>
              rw [if_neg shown] at kept
              exact cursor.draw?_ok _ _ kept
      | hardLine => exact newLine?_ok width indent kept
      | softLine =>
          cases mode with
          | flat => exact cursor.draw?_ok _ _ kept
          | broken => exact newLine?_ok width indent kept
      | concat docs => rfl
      | nest more inner =>
          simp only [Frame.step, Drawn.forming, Nat.max_lt] at kept
          rw [Frame.step?, sum?_ok indent more kept.1]
          rfl
      | group inner =>
          simp only [Frame.step, Drawn.forming, Nat.max_lt] at kept
          rw [Frame.step?, cursor.room.choose?_ok mode inner 0 kept.1]
          rfl
      | fill items =>
          cases items with
          | nil => rfl
          | cons first rest =>
              simp only [Frame.step, Drawn.forming, Nat.max_lt] at kept
              rw [Frame.step?, cursor.room.choose?_ok mode first 0 kept.1]
              rfl
  | filling indent mode items =>
      cases items with
      | nil => rfl
      | cons next rest =>
          rw [Frame.step?, cursor.gap?_ok width indent mode next kept]
          rfl

/-! Accounting: the line under the cursor can grow by no more than the frames have left. -/

def Frame.nesting : Frame → Nat
  | .laying indent _ doc => indent + doc.nesting
  | .filling indent _ items => indent + nestingAll items

def Frame.spread : Frame → Nat
  | .laying _ _ doc => doc.spread
  | .filling _ _ items => spreadAll items + items.length

def stackSpread : List Frame → Nat
  | [] => 0
  | frame :: rest => frame.spread + stackSpread rest

@[simp] theorem stackSpread_append (first second : List Frame) :
    stackSpread (first ++ second) = stackSpread first + stackSpread second := by
  induction first with
  | nil => simp [stackSpread]
  | cons frame rest ih =>
      rw [List.cons_append, stackSpread, stackSpread, ih]
      omega

theorem stackSpread_docs (indent : Nat) (mode : Mode) (docs : List Doc) :
    stackSpread (docs.map (.laying indent mode)) = spreadAll docs := by
  induction docs with
  | nil => rfl
  | cons doc rest ih => simp [stackSpread, Frame.spread, spreadAll, ih]

theorem nesting_le_nestingAll (docs : List Doc) :
    ∀ doc ∈ docs, doc.nesting ≤ nestingAll docs := by
  induction docs with
  | nil => simp
  | cons doc rest ih =>
      intro other member
      rw [nestingAll]
      rcases List.mem_cons.mp member with rfl | inRest
      · exact Nat.le_max_left _ _
      · exact Nat.le_trans (ih other inRest) (Nat.le_max_right _ _)

theorem Frame.step_nesting (width : Nat) (cursor : Cursor) (frame : Frame) :
    ∀ next ∈ (frame.step width cursor).frames, next.nesting ≤ frame.nesting := by
  cases frame with
  | laying indent mode doc =>
      cases doc with
      | concat docs =>
          intro next member
          obtain ⟨doc, inDocs, rfl⟩ := List.mem_map.mp member
          exact Nat.add_le_add_left (nesting_le_nestingAll docs doc inDocs) indent
      | nest more inner => simp [Frame.step, Frame.nesting, Doc.nesting, Nat.add_assoc]
      | group inner => simp [Frame.step, Frame.nesting, Doc.nesting]
      | fill items =>
          cases items with
          | nil => simp [Frame.step]
          | cons first rest =>
              simp only [Frame.step, List.forall_mem_cons, Frame.nesting, Doc.nesting, nestingAll]
              exact ⟨by omega, by omega, by simp⟩
      | _ => simp [Frame.step]
  | filling indent mode items =>
      cases items with
      | nil => simp [Frame.step]
      | cons next rest =>
          simp only [Frame.step, List.forall_mem_cons, Frame.nesting, nestingAll]
          exact ⟨by omega, by omega, by simp⟩

theorem Drawn.Within.accounts {drawn : Drawn} {nested bound : Nat} (within : drawn.Within bound)
    (inside : nested ≤ bound) :
    drawn.peak ≤ bound ∧ max drawn.cursor.room.used nested + stackSpread [] ≤ bound :=
  ⟨within.peak, Nat.max_le.mpr ⟨within.used, inside⟩⟩

theorem Frame.step_accounts (width : Nat) (cursor : Cursor) (frame : Frame) (nested : Nat)
    (inside : frame.nesting ≤ nested) :
    (frame.step width cursor).drawn.peak ≤ max cursor.room.used nested + frame.spread ∧
      max (frame.step width cursor).drawn.cursor.room.used nested +
          stackSpread (frame.step width cursor).frames ≤
        max cursor.room.used nested + frame.spread := by
  cases frame with
  | laying indent mode doc =>
      rw [Frame.nesting] at inside
      rw [Frame.spread]
      cases doc with
      | nil => exact (Drawn.within_still cursor _ (by omega)).accounts (by omega)
      | text content =>
          rw [Doc.spread]
          exact (cursor.text_within content _ (by omega)).accounts (by omega)
      | hardLine => exact (newLine_within width indent _ (by omega)).accounts (by omega)
      | softLine =>
          rw [Doc.spread]
          cases mode with
          | flat => exact (cursor.draw_within _ 1 _ (by omega)).accounts (by omega)
          | broken => exact (newLine_within width indent _ (by omega)).accounts (by omega)
      | concat docs =>
          simp only [Frame.step, stackSpread_docs, Drawn.still, Doc.spread]
          omega
      | nest more inner =>
          rw [Doc.nesting] at inside
          simp only [Frame.step, Frame.spread, Doc.spread, Drawn.still, Drawn.forming, stackSpread]
          omega
      | group inner =>
          have choice := cursor.room.choose_peak_le mode inner 0
          simp only [Frame.step, Frame.spread, Doc.spread, Drawn.still, Drawn.forming, stackSpread]
          omega
      | fill items =>
          cases items with
          | nil => exact (Drawn.within_still cursor _ (by omega)).accounts (by omega)
          | cons first rest =>
              have choice := cursor.room.choose_peak_le mode first 0
              simp only [Frame.step, Frame.spread, Doc.spread, spreadAll, Drawn.still,
                Drawn.forming, stackSpread, List.length_cons]
              omega
  | filling indent mode items =>
      rw [Frame.nesting] at inside
      cases items with
      | nil => exact (Drawn.within_still cursor _ (by omega)).accounts (by omega)
      | cons next rest =>
          obtain ⟨gapPeak, gapUsed⟩ := cursor.gap_bounds width indent mode next
            (max cursor.room.used nested) (by omega) (by omega)
          simp only [Frame.step, Frame.spread, spreadAll, stackSpread, List.length_cons]
          omega

/-- The column of the cursor and all that the frames have left come to no more than `bound`. -/
structure Layout.Accounts (layout : Layout) (nested bound : Nat) : Prop where
  inside : ∀ frame ∈ layout.frames, frame.nesting ≤ nested
  ahead : max layout.cursor.room.used nested + stackSpread layout.frames ≤ bound

theorem Reached.accounts {width : Nat} {doc : Doc} {layout : Layout}
    (reached : Reached width doc layout) :
    layout.Accounts doc.nesting (doc.nesting + doc.spread) := by
  induction reached with
  | start =>
      constructor
      · simp [Frame.nesting]
      · simp [stackSpread, Frame.spread, Cursor.start, Room.ofWidth]
  | @step frame rest cursor strokes before ih =>
      obtain ⟨inside, ahead⟩ := ih
      have top := inside frame (by simp)
      obtain ⟨-, left⟩ := frame.step_accounts width cursor doc.nesting top
      constructor
      · intro next member
        rcases List.mem_append.mp member with here | below
        · exact Nat.le_trans (frame.step_nesting width cursor next here) top
        · exact inside next (List.mem_cons_of_mem frame below)
      · simp only [stackSpread] at ahead
        simp only [stackSpread_append]
        omega

theorem Reached.turn {width : Nat} {doc : Doc} {layout : Layout}
    (reached : Reached width doc layout) : Reached width doc (layout.turn width) := by
  obtain ⟨frames, cursor, strokes⟩ := layout
  cases frames with
  | nil => exact reached
  | cons frame rest => exact reached.step

theorem Reached.turn?_ok {width : Nat} {doc : Doc} {layout : Layout}
    (reached : Reached width doc layout) (small : doc.nesting + doc.spread < columnLimit) :
    layout.turn? width = .ok (layout.turn width) := by
  obtain ⟨inside, ahead⟩ := reached.accounts
  obtain ⟨frames, cursor, strokes⟩ := layout
  cases frames with
  | nil => rfl
  | cons frame rest =>
      obtain ⟨peak, -⟩ := frame.step_accounts width cursor doc.nesting (inside frame (by simp))
      simp only [stackSpread] at ahead
      simp only [Layout.turn?, frame.step?_ok width cursor (by omega), bind, Except.bind]
      rfl

theorem Reached.turns?_ok {width : Nat} {doc : Doc} {layout : Layout}
    (reached : Reached width doc layout) (small : doc.nesting + doc.spread < columnLimit)
    (turns : Nat) : layout.turns? width turns = .ok ((Layout.turn width)^[turns] layout) := by
  induction turns generalizing layout with
  | zero => rfl
  | succ turns ih =>
      rw [Layout.turns?, reached.turn?_ok small, Function.iterate_succ_apply]
      exact ih reached.turn

theorem Doc.lay?_ok (doc : Doc) (width : Nat) (small : doc.nesting + doc.spread < columnLimit) :
    doc.lay? width = .ok ((doc.lay width).leaving []) := by
  obtain ⟨turns, few, ends⟩ := exists_turns width [.laying 0 .broken doc] (.start width) []
  obtain ⟨idle, total⟩ := Nat.exists_eq_add_of_le few
  rw [stackWeight_cons, stackWeight_nil, Nat.add_zero, Frame.weight] at total
  rw [Doc.lay?, Reached.start.turns?_ok small, total, Nat.add_comm, Function.iterate_add_apply,
    ends]
  exact congrArg Except.ok (Function.iterate_fixed rfl idle)

/-- Every turn of every run passes its checks, the run ends with what the document is laid out as,
and its cursor never stands past the indentation and the columns of the document together. -/
theorem Doc.columns_kept (doc : Doc) (width : Nat)
    (small : doc.nesting + doc.spread < columnLimit) :
    (doc.measure? = .ok doc.flatColumns ∧ doc.flatColumns? = .ok doc.flatColumns) ∧
      (∀ layout, Reached width doc layout →
        layout.turn? width = .ok (layout.turn width) ∧
          layout.cursor.room.used ≤ doc.nesting + doc.spread) ∧
      doc.lay? width = .ok ((doc.lay width).leaving []) ∧
      doc.strokes? ⟨width⟩ = .ok (doc.lay width).strokes := by
  have flat := doc.flat_le_spread.1
  have peak := doc.lay_peak_le width
  refine ⟨⟨doc.measure?_ok (by omega), ?_⟩, ?_, doc.lay?_ok width small, ?_⟩
  · exact (withinColumns_eq_ok_iff _ _ _).mpr ⟨by omega, rfl⟩
  · intro layout reached
    have ahead := reached.accounts.ahead
    exact ⟨reached.turn?_ok small, by omega⟩
  · exact (withinColumns_eq_ok_iff _ _ _).mpr ⟨Nat.lt_of_le_of_lt peak small, rfl⟩

theorem Doc.columns_kept_last_column :
    let doc := Doc.nest (columnLimit - 4) (.concat [.hardLine, .text ['e', 'n', 'd']])
    let strokes := [Stroke.newline, .spaces (columnLimit - 4), .text ['e', 'n', 'd']]
    doc.nesting + doc.spread = columnLimit - 1 ∧
      ∀ width ∈ [0, columnLimit - 1],
        doc.lay? width = .ok ⟨[], ⟨⟨0, columnLimit - 1⟩, none⟩, strokes⟩ ∧
          doc.strokes? ⟨width⟩ = .ok strokes := by
  intro doc strokes
  have small : doc.nesting + doc.spread < columnLimit := by decide
  have laid : ∀ width ∈ [0, columnLimit - 1],
      doc.lay width = ⟨strokes, columnLimit - 1, ⟨⟨0, columnLimit - 1⟩, none⟩⟩ := by
    decide +kernel
  refine ⟨by decide, fun width member => ?_⟩
  obtain ⟨-, -, run, drawn⟩ := doc.columns_kept width small
  rw [run, drawn, laid width member]
  exact ⟨rfl, rfl⟩

-- One column further in, the third character is one too many.
example : ((Doc.nest (columnLimit - 3) (.concat [.hardLine, .text ['e', 'n', 'd']])).lay? 0).isOk =
    false := by
  decide +kernel

end CommentFormat
