import CommentFormat.Proofs.Layout.Flat
import CommentFormat.Proofs.Layout.Running

/-! Narrowing: a layout that stays within a narrower page is the layout of that page too. -/

namespace CommentFormat

def StaysWithin (width : Nat) (text : Text) : Prop :=
  ∀ line ∈ text.splitOn '\n', columns line ≤ width

instance (width : Nat) (text : Text) : Decidable (StaysWithin width text) :=
  inferInstanceAs (Decidable (∀ line ∈ text.splitOn '\n', columns line ≤ width))

/-! A line that was begun goes on in the whole text. -/

theorem splitOn_line_append (line more : Text) (single : '\n' ∉ line) :
    ∃ ending rest, (line ++ more).splitOn '\n' = (line ++ ending) :: rest := by
  induction line with
  | nil =>
      obtain ⟨first, rest, cut⟩ := List.exists_cons_of_ne_nil (List.splitOn_ne_nil '\n' more)
      exact ⟨first, rest, cut⟩
  | cons character line ih =>
      rw [List.mem_cons, not_or] at single
      obtain ⟨ending, rest, cut⟩ := ih single.2
      have inside : ¬ (character == '\n') = true := by
        simpa using fun same => single.1 same.symm
      refine ⟨ending, rest, ?_⟩
      rw [List.cons_append, List.splitOn_cons_eq_if_modifyHead, if_neg inside, cut,
        List.modifyHead_cons, List.cons_append]

theorem exists_before_lastLine (text : Text) :
    lastLine text = text ∨ ∃ before, text = before ++ '\n' :: lastLine text := by
  have whole : text.rdropWhile (· ≠ '\n') ++ lastLine text = text :=
    List.rdropWhile_append_rtakeWhile
  by_cases first : text.rdropWhile (· ≠ '\n') = []
  · rw [first, List.nil_append] at whole
    exact .inl whole
  · have ends : (text.rdropWhile (· ≠ '\n')).getLast first = '\n' := by
      simpa using List.rdropWhile_last_not _ _ first
    have cut := List.dropLast_append_getLast first
    rw [ends] at cut
    rw [← cut, List.append_assoc] at whole
    exact .inr ⟨_, whole.symm⟩

theorem exists_line_lastLine (text more : Text) :
    ∃ ending, lastLine text ++ ending ∈ (text ++ more).splitOn '\n' := by
  have single : '\n' ∉ lastLine text := by
    intro inside
    simpa using List.mem_rtakeWhile_imp inside
  obtain ⟨ending, rest, cut⟩ := splitOn_line_append (lastLine text) more single
  refine ⟨ending, ?_⟩
  rcases exists_before_lastLine text with whole | ⟨before, whole⟩
  · rw [whole] at cut ⊢
    simp [cut]
  · rw [whole, List.append_assoc, List.cons_append, List.splitOn_append_cons_self, ← whole, cut]
    simp

theorem Tracks.used_le {width narrow : Nat} {strokes : List Stroke} {cursor : Cursor}
    (tracks : Tracks width strokes cursor) (drawn : cursor.pending = none) (later : List Stroke)
    (within : StaysWithin narrow (written (strokes ++ later))) : cursor.room.used ≤ narrow := by
  obtain ⟨ending, member⟩ := exists_line_lastLine (written strokes) (written later)
  rw [written_append] at within
  have bound := within _ member
  have used := tracks.used
  rw [drawn, Option.getD_none] at used
  simp only [columns, List.length_append] at bound used
  omega

/-! The same place on a page of another width. -/

def Room.onPage (width : Nat) (room : Room) : Room :=
  ⟨width - room.used, room.used⟩

def Cursor.onPage (width : Nat) (cursor : Cursor) : Cursor :=
  ⟨cursor.room.onPage width, cursor.pending⟩

def Drawn.onPage (width : Nat) (drawn : Drawn) : Drawn :=
  ⟨drawn.strokes, drawn.peak, drawn.cursor.onPage width⟩

def Step.onPage (width : Nat) (step : Step) : Step :=
  ⟨step.frames, step.drawn.onPage width⟩

@[simp] theorem Room.onPage_free (width : Nat) (room : Room) :
    (room.onPage width).free = width - room.used := rfl

@[simp] theorem Room.onPage_used (width : Nat) (room : Room) :
    (room.onPage width).used = room.used := rfl

theorem Room.fits_iff (room : Room) (count : Nat) :
    room.fits count = true ↔ count ≤ room.free :=
  decide_eq_true_iff

theorem Room.take_onPage (width : Nat) (room : Room) (count : Nat) :
    (room.onPage width).take count = (room.take count).onPage width := by
  simp [Room.onPage, Room.take, Nat.sub_sub]

theorem Room.startLine_onPage (width other indent : Nat) :
    (Room.startLine other indent).onPage width = Room.startLine width indent := by
  simp [Room.onPage, Room.startLine, Room.ofWidth, Room.take]

theorem Drawn.forming_onPage (width column : Nat) (drawn : Drawn) :
    (drawn.forming column).onPage width = (drawn.onPage width).forming column := rfl

theorem Drawn.still_onPage (width : Nat) (cursor : Cursor) :
    (Drawn.still cursor).onPage width = .still (cursor.onPage width) := rfl

theorem Cursor.draw_onPage (width : Nat) (cursor : Cursor) (stroke : Stroke) (count : Nat) :
    (cursor.onPage width).draw stroke count = (cursor.draw stroke count).onPage width := by
  simp only [Cursor.draw, Cursor.onPage, Drawn.onPage, Room.take_onPage]
  rfl

theorem Cursor.text_onPage (width : Nat) (cursor : Cursor) (content : Text) :
    (cursor.onPage width).text content = (cursor.text content).onPage width := by
  unfold Cursor.text
  split
  · rfl
  · exact cursor.draw_onPage width _ _

theorem newLine_onPage (width other indent : Nat) :
    (newLine other indent).onPage width = newLine width indent := by
  simp [newLine, Drawn.onPage, Cursor.onPage, Room.startLine_onPage]

section Narrow

variable {wide narrow : Nat} (less : narrow ≤ wide)

include less

theorem Room.choose_onPage (room : Room) (on : room.On wide) (outer : Mode) (doc : Doc) (lead : Nat)
    (stays : (room.choose outer doc lead).mode = .flat → outer = .broken →
      ∀ count, doc.flatColumns = some count → lead + count ≤ narrow - room.used) :
    (room.onPage narrow).choose outer doc lead = room.choose outer doc lead := by
  cases outer with
  | flat => rfl
  | broken =>
      cases flat : doc.flatColumns with
      | none => simp [Room.choose, flat]
      | some count =>
          have free : room.free = wide - room.used := on
          simp only [Room.choose, flat, Room.fits_iff, Room.onPage_free] at stays ⊢
          by_cases fits : lead + count ≤ room.free
          · have inside := stays (if_pos fits) trivial count rfl
            rw [if_pos fits, if_pos inside]
          · have outside : ¬ lead + count ≤ narrow - room.used := by omega
            rw [if_neg fits, if_neg outside]

end Narrow

/-! Two runs, one on each page. -/

theorem layFrames_tracks (width : Nat) (frames : List Frame) (cursor : Cursor)
    (strokes : List Stroke) (tracks : Tracks width strokes cursor)
    (unbroken : ∀ frame ∈ frames, frame.unbroken = true) :
    Tracks width (strokes ++ (layFrames width frames cursor).strokes)
      (layFrames width frames cursor).cursor := by
  fun_induction layFrames width frames cursor generalizing strokes with
  | case1 cursor => simpa [Drawn.still] using tracks
  | case2 cursor frame rest step ih =>
      have whole := unbroken frame (by simp)
      have moved := (frame.step_moves width cursor whole).tracks tracks
      have later := ih _ moved (stack_step_unbroken width cursor frame rest unbroken)
      rwa [List.append_assoc] at later

section Runs

variable {wide narrow : Nat} {strokes : List Stroke} {cursor : Cursor} {doc : Doc}

theorem flat_stays (tracks : Tracks wide strokes cursor) (unbroken : doc.unbroken = true)
    (count : Nat) (flat : doc.flatColumns = some count) (drawn : count = 0 → cursor.pending = none)
    (indent : Nat) (rest : List Frame)
    (within : StaysWithin narrow
      (written (strokes ++ (layFrames wide (.laying indent .flat doc :: rest) cursor).strokes))) :
    cursor.room.used + count ≤ narrow := by
  have shown := layFrames_tracks wide [.laying indent .flat doc] cursor strokes tracks
    (by simpa [Frame.unbroken] using unbroken)
  rw [layFrames_doc, doc.drawAt_flat wide indent cursor count flat] at shown
  have flushed : (cursor.after count).pending = none := by
    unfold Cursor.after
    split
    · next nothing => exact drawn nothing
    · rfl
  have split : layFrames wide (.laying indent .flat doc :: rest) cursor =
      (doc.drawAt wide indent .flat cursor).followedBy
        (drawFrames wide (doc.drawAt wide indent .flat cursor).cursor rest) := by
    rw [layFrames_eq_drawFrames]
    rfl
  rw [split, Drawn.followedBy, ← List.append_assoc] at within
  have bound := shown.used_le flushed _ within
  rwa [Cursor.after_room, Room.take_used] at bound

variable (less : narrow ≤ wide)

include less

theorem choose_laying (tracks : Tracks wide strokes cursor) (unbroken : doc.unbroken = true)
    (indent : Nat) (outer : Mode) (rest : List Frame)
    (within : StaysWithin narrow (written (strokes ++ (layFrames wide
      (.laying indent (cursor.room.choose outer doc 0).mode doc :: rest) cursor).strokes))) :
    (cursor.onPage narrow).room.choose outer doc 0 = cursor.room.choose outer doc 0 := by
  apply Room.choose_onPage less cursor.room tracks.free
  intro chosen _ count flat
  rw [chosen] at within
  by_cases nothing : count = 0
  · omega
  · have bound := flat_stays tracks unbroken count flat (fun zero => absurd zero nothing) indent
      rest within
    omega

theorem gap_onPage (tracks : Tracks wide strokes cursor) (unbroken : doc.unbroken = true)
    (indent : Nat) (outer : Mode) (rest : List Frame)
    (within : StaysWithin narrow (written (strokes ++
      ((cursor.gap wide indent outer doc).drawn.strokes ++ (layFrames wide
        (.laying indent (cursor.gap wide indent outer doc).mode doc :: rest)
          (cursor.gap wide indent outer doc).drawn.cursor).strokes)))) :
    (cursor.onPage narrow).gap narrow indent outer doc =
      ⟨(cursor.gap wide indent outer doc).drawn.onPage narrow,
        (cursor.gap wide indent outer doc).mode⟩ := by
  rw [← List.append_assoc] at within
  have beside : (cursor.onPage narrow).room.choose outer doc 1 =
      cursor.room.choose outer doc 1 := by
    apply Room.choose_onPage less cursor.room tracks.free
    intro chosen _ count flat
    simp only [Cursor.gap, chosen, Drawn.forming] at within
    -- The space before the item draws the indentation, so an item without columns is charged too.
    have spaced : Tracks wide (strokes ++ cursor.space.strokes) cursor.space.cursor :=
      Moves.space.tracks tracks
    have bound := flat_stays spaced unbroken count flat (fun _ => rfl) indent rest within
    rw [Cursor.space_cursor, Cursor.after_room, Room.take_used] at bound
    omega
  unfold Cursor.gap at within ⊢
  simp only [beside]
  cases chosen : (cursor.room.choose outer doc 1).mode with
  | flat => simp [Drawn.forming_onPage, Cursor.space, Cursor.draw_onPage]
  | broken =>
      simp only [chosen, Drawn.forming, newLine] at within
      have below := choose_laying less (tracks.line indent) unbroken indent outer rest within
      rw [Cursor.onPage, Room.startLine_onPage] at below
      simp [below, Drawn.forming_onPage, newLine_onPage]

theorem Frame.step_onPage (frame : Frame) (rest : List Frame)
    (tracks : Tracks wide strokes cursor) (unbroken : frame.unbroken = true)
    (within : StaysWithin narrow
      (written (strokes ++ (layFrames wide (frame :: rest) cursor).strokes))) :
    frame.step narrow (cursor.onPage narrow) = (frame.step wide cursor).onPage narrow := by
  rw [layFrames, Drawn.followedBy] at within
  cases frame with
  | laying indent mode doc =>
      cases doc with
      | nil => rfl
      | text content => simp [Frame.step, Step.onPage, Cursor.text_onPage]
      | hardLine => simp [Frame.step, Step.onPage, newLine_onPage]
      | softLine =>
          cases mode with
          | flat => simp [Frame.step, Step.onPage, Cursor.softLine, Cursor.space, Cursor.draw_onPage]
          | broken => simp [Frame.step, Step.onPage, Cursor.softLine, newLine_onPage]
      | concat docs => rfl
      | nest more inner => rfl
      | group inner =>
          have whole : inner.unbroken = true := unbroken
          have same := choose_laying less tracks whole indent mode rest within
          simp [Frame.step, same, Step.onPage, Drawn.forming_onPage, Drawn.still_onPage]
      | fill items =>
          cases items with
          | nil => rfl
          | cons first later =>
              have whole : first.unbroken = true ∧ unbrokenAll later = true := by
                simpa [Frame.unbroken, Doc.unbroken, unbrokenAll] using unbroken
              have same := choose_laying less tracks whole.1 indent mode _ within
              simp [Frame.step, same, Step.onPage, Drawn.forming_onPage, Drawn.still_onPage]
  | filling indent mode items =>
      cases items with
      | nil => rfl
      | cons next later =>
          have whole : next.unbroken = true ∧ unbrokenAll later = true := by
            simpa [Frame.unbroken, unbrokenAll] using unbroken
          have same := gap_onPage less tracks whole.1 indent mode _ within
          simp [Frame.step, same, Step.onPage]

end Runs

/-- As long as the text stays within the narrow page, every step decides there as it does on the
wide one. -/
theorem layFrames_onPage {wide narrow : Nat} (less : narrow ≤ wide) (frames : List Frame)
    (cursor : Cursor) (strokes : List Stroke) (tracks : Tracks wide strokes cursor)
    (unbroken : ∀ frame ∈ frames, frame.unbroken = true)
    (within : StaysWithin narrow (written (strokes ++ (layFrames wide frames cursor).strokes))) :
    layFrames narrow frames (cursor.onPage narrow) =
      (layFrames wide frames cursor).onPage narrow := by
  fun_induction layFrames wide frames cursor generalizing strokes with
  | case1 cursor => rw [layFrames, Drawn.still_onPage]
  | case2 cursor frame rest step ih =>
      have whole := unbroken frame (by simp)
      have here := frame.step_onPage less rest tracks whole (by rwa [layFrames])
      have moved := (frame.step_moves wide cursor whole).tracks tracks
      have later := ih _ moved (stack_step_unbroken wide cursor frame rest unbroken)
        (by rwa [List.append_assoc])
      rw [layFrames, here]
      exact congrArg step.drawn.followedBy later

theorem Doc.lay_onPage {wide narrow : Nat} (less : narrow ≤ wide) (doc : Doc)
    (unbroken : doc.unbroken = true)
    (within : StaysWithin narrow (written (doc.lay wide).strokes)) :
    doc.lay narrow = (doc.lay wide).onPage narrow :=
  layFrames_onPage less [.laying 0 .broken doc] (.start wide) [] (start_tracks wide)
    (by simpa [Frame.unbroken] using unbroken) within

theorem Doc.render?_eq_ok_iff (doc : Doc) (page : Page) (text : Text) :
    doc.render? page = .ok text ↔
      (doc.lay page.width).peak < columnLimit ∧ written (doc.lay page.width).strokes = text := by
  simp only [Doc.render?, Doc.strokes?, withinColumns]
  split
  · next kept => simp [Except.map, kept]
  · next exceeds => simp [Except.map, exceeds]

end CommentFormat
