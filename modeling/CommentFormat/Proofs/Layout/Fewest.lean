import CommentFormat.Proofs.Layout.Greedy
import CommentFormat.Proofs.Layout.Running
import CommentFormat.Proofs.Layout.Writing

/-! The fewest lines: items that go on with a line as long as they fit take no more lines than any
other cut of the same items would. -/

namespace CommentFormat

def lineEnd (separator : Text) (start : Nat) (items : List Text) : Nat :=
  start + columns (separator.intercalate items)

theorem intercalate_append_separator (separator : Text) (items : List Text) (shown : items ≠ []) :
    separator.intercalate items ++ separator = items.flatMap (· ++ separator) := by
  induction items with
  | nil => contradiction
  | cons item rest ih =>
      cases rest with
      | nil => simp
      | cons next later =>
          rw [List.flatMap_cons, ← ih (by simp), List.intercalate_cons_cons, List.append_assoc]

theorem lineEnd_append (separator : Text) (start : Nat) (items : List Text) (item : Text)
    (shown : items ≠ []) :
    lineEnd separator start (items ++ [item]) =
      lineEnd separator start items + columns (separator ++ item) := by
  have longer := congrArg List.length
    (intercalate_append_separator separator (items ++ [item]) (by simp))
  have shorter := congrArg List.length (intercalate_append_separator separator items shown)
  simp only [List.flatMap_append, List.flatMap_singleton, List.length_append] at longer shorter
  simp only [lineEnd, columns, List.length_append]
  omega

theorem lineEnd_middle_le (separator : Text) (start other : Nat) (earlier : start ≤ other)
    (before items after : List Text) (shown : items ≠ []) :
    lineEnd separator start items ≤ lineEnd separator other (before ++ items ++ after) := by
  have whole := congrArg List.length
    (intercalate_append_separator separator (before ++ items ++ after) (by simp [shown]))
  have middle := congrArg List.length (intercalate_append_separator separator items shown)
  simp only [List.flatMap_append, List.length_append] at whole middle
  simp only [lineEnd, columns]
  omega

/-- Lines of at least one item, each of which stays on the page or holds a single item. The first of
them starts at column `start`, and every other one at `below`. -/
inductive Cut (width : Nat) (separator : Text) (below : Nat) : Nat → List (List Text) → Prop where
  | nil {start : Nat} : Cut width separator below start []
  | line {start : Nat} {items : List Text} {rest : List (List Text)} (shown : items ≠ [])
      (fits : lineEnd separator start items ≤ width ∨ items.length = 1)
      (under : Cut width separator below below rest) :
      Cut width separator below start (items :: rest)

/-- Lines that end only where the first item of the next one would have run past the page. -/
inductive Filled (width : Nat) (separator : Text) (below : Nat) :
    Nat → List (List Text) → Prop where
  | nil {start : Nat} : Filled width separator below start []
  | last {start : Nat} {items : List Text} : Filled width separator below start [items]
  | line {start : Nat} {items more : List Text} {next : Text} {rest : List (List Text)}
      (full : width < lineEnd separator start (items ++ [next]))
      (under : Filled width separator below below ((next :: more) :: rest)) :
      Filled width separator below start (items :: (next :: more) :: rest)

section Cuts

variable {width : Nat} {separator : Text} {below : Nat}

theorem Cut.shown {start : Nat} {rows : List (List Text)}
    (cut : Cut width separator below start rows) : ∀ items ∈ rows, items ≠ [] := by
  induction cut with
  | nil => simp
  | line shown fits under ih => exact List.forall_mem_cons.mpr ⟨shown, ih⟩

theorem Cut.wider {start wide : Nat} {rows : List (List Text)} (less : width ≤ wide)
    (cut : Cut width separator below start rows) : Cut wide separator below start rows := by
  induction cut with
  | nil => exact .nil
  | line shown fits under ih =>
      refine .line shown ?_ ih
      rcases fits with within | single
      · exact .inl (by omega)
      · exact .inr single

/-- Filled lines stay ahead: what is left of the items when they have come to a line is no more than
what any other cut has left at the same line. Items that only the other cut has left are `extra`. -/
theorem Filled.length_le {first second : Nat} {rows other : List (List Text)}
    (filled : Filled width separator below first rows) (shown : ∀ items ∈ rows, items ≠ [])
    (cut : Cut width separator below second other) (earlier : first ≤ second) (extra : List Text)
    (same : other.flatten = extra ++ rows.flatten) : rows.length ≤ other.length := by
  induction cut generalizing first rows extra with
  | nil =>
      cases rows with
      | nil => exact Nat.le_refl 0
      | cons items rest => simp [shown items (by simp)] at same
  | @line second line lines lineShown fits under ih =>
      cases filled with
      | nil => exact Nat.zero_le _
      | last => simp
      | @line _ items more next rest full filledUnder =>
          have itemsShown := shown items (by simp)
          have restShown := fun other member => shown other (List.mem_cons_of_mem items member)
          rw [List.flatten_cons, List.flatten_cons, ← List.append_assoc,
            List.append_eq_append_iff] at same
          rcases same with ⟨left, ahead, same⟩ | ⟨past, behind, same⟩
          · have later := ih filledUnder restShown (Nat.le_refl below) left same
            simp only [List.length_cons] at later ⊢
            omega
          · cases past with
            | nil =>
                have later := ih filledUnder restShown (Nat.le_refl below) [] same.symm
                simp only [List.length_cons] at later ⊢
                omega
            | cons item tail =>
                -- A line that went on past the filled one would hold the item that did not fit.
                have isNext : next = item := by simpa using (List.cons.inj same).1
                have whole : line = extra ++ (items ++ [next]) ++ tail := by
                  simp [behind, isNext]
                have reach := lineEnd_middle_le separator first second earlier extra
                  (items ++ [next]) tail (by simp)
                rw [← whole] at reach
                have several : 1 < line.length := by
                  have one := List.length_pos_iff.mpr itemsShown
                  simp only [whole, List.length_append, List.length_cons, List.length_nil]
                  omega
                omega

theorem Filled.fewest {start : Nat} {rows : List (List Text)}
    (filled : Filled width separator below start rows) (cut : Cut width separator below start rows)
    (other : List (List Text)) (otherCut : Cut width separator below start other)
    (same : other.flatten = rows.flatten) : rows.length ≤ other.length :=
  filled.length_le cut.shown otherCut (Nat.le_refl start) [] same

end Cuts

/-! Packed lines are such lines. -/

theorem lineEnd_eq_packedLine (separator opening : Text) (offset : Nat) (items : List Text) :
    lineEnd separator (offset + columns opening) items =
      offset + columns (packedLine separator opening items) := by
  simp only [lineEnd, packedLine, columns, List.length_append]
  omega

section Packed

variable {width offset : Nat} {separator opening : Text} {rows : List (List Text)}

theorem Greedy.cut (greedy : Greedy width separator opening offset rows) :
    Cut width separator (columns opening) (offset + columns opening) rows := by
  have keeps (offset : Nat) (items : List Text) (shown : items ≠ [])
      (fits : 1 < items.length → offset + columns (packedLine separator opening items) ≤ width) :
      lineEnd separator (offset + columns opening) items ≤ width ∨ items.length = 1 := by
    have one := List.length_pos_iff.mpr shown
    rw [lineEnd_eq_packedLine]
    by_cases single : items.length = 1
    · exact .inr single
    · exact .inl (fits (by omega))
  induction greedy with
  | last shown fits => exact .line shown (keeps _ _ shown fits) .nil
  | full shown fits exceeds below ih =>
      rw [Nat.zero_add] at ih
      exact .line shown (keeps _ _ shown fits) ih

theorem Greedy.filled (greedy : Greedy width separator opening offset rows) :
    Filled width separator (columns opening) (offset + columns opening) rows := by
  induction greedy with
  | last shown fits => exact .last
  | full shown fits exceeds below ih =>
      rw [Nat.zero_add] at ih
      refine .line ?_ ih
      rw [lineEnd_append _ _ _ _ shown, lineEnd_eq_packedLine]
      exact exceeds

theorem Greedy.length_le {wide : Nat} {others : List (List Text)} (less : width ≤ wide)
    (greedy : Greedy width separator opening offset rows)
    (wider : Greedy wide separator opening offset others) (same : rows.flatten = others.flatten) :
    others.length ≤ rows.length :=
  wider.filled.fewest wider.cut rows (greedy.cut.wider less) same

end Packed

/-! Fills of words. -/

def indentedLine (lead : Text) (items : List Text) : Text :=
  if [' '].intercalate items = [] then [] else lead ++ [' '].intercalate items

def indentedLines (indent : Nat) (lead : Text) : List (List Text) → List Text
  | [] => []
  | first :: rest => indentedLine lead first :: rest.map (indentedLine (List.replicate indent ' '))

theorem spaced_append (items : List Text) (shown : items ≠ []) (word : Text) :
    [' '].intercalate (items ++ [word]) = [' '].intercalate items ++ ' ' :: word := by
  simpa [packedLine] using packedLine_append [' '] [] items word shown

theorem indentedLine_append (lead : Text) (items : List Text) (shown : items ≠ []) (word : Text) :
    indentedLine lead (items ++ [word]) = lead ++ ([' '].intercalate items ++ ' ' :: word) := by
  rw [indentedLine, spaced_append items shown, if_neg (by simp)]

theorem newline_not_mem_indentedLine (lead : Text) (items : List Text) (leadSingle : '\n' ∉ lead)
    (single : ∀ item ∈ items, '\n' ∉ item) : '\n' ∉ indentedLine lead items := by
  unfold indentedLine
  split
  · simp
  · rw [List.mem_append, not_or]
    refine ⟨leadSingle, fun inside => ?_⟩
    rcases mem_intercalate _ _ _ inside with between | ⟨item, member, here⟩
    · simp at between
    · exact single item member here

structure Cursor.Behind (cursor : Cursor) (width start : Nat) (lead : Text) (items : List Text) :
    Prop where
  room : cursor.room.On width
  used : cursor.room.used = lineEnd [' '] start items
  lead : cursor.lead = if [' '].intercalate items = [] then lead else []

theorem Cursor.written_space (cursor : Cursor) :
    written cursor.space.strokes = cursor.lead ++ [' '] := by
  simp [Cursor.space, Cursor.draw, Cursor.lead, Stroke.written]

theorem Cursor.behind_text (cursor : Cursor) (width : Nat) (on : cursor.room.On width) (word : Text) :
    (cursor.text word).cursor.Behind width cursor.room.used cursor.lead [word] := by
  by_cases empty : word = []
  · subst empty
    exact ⟨on, by simp [Cursor.text, lineEnd], by simp [Cursor.text]⟩
  · rw [Cursor.text, if_neg empty]
    refine ⟨Room.take_on width _ _ on, by simp [Cursor.draw, lineEnd], ?_⟩
    simp [Cursor.draw, Cursor.lead, pendingSpaces, empty]

section Behind

variable {cursor : Cursor} {width start : Nat} {lead : Text} {items : List Text}

theorem Cursor.Behind.append (behind : cursor.Behind width start lead items) (shown : items ≠ [])
    (word : Text) :
    (cursor.space.cursor.text word).cursor.Behind width start lead (items ++ [word]) := by
  have drawn : [' '].intercalate (items ++ [word]) ≠ [] := by simp [spaced_append items shown]
  have spaced := cursor.space.cursor.behind_text width (Room.take_on width _ 1 behind.room) word
  refine ⟨spaced.room, ?_, ?_⟩
  · have used := behind.used
    have longer := lineEnd_append [' '] start items word shown
    rw [spaced.used]
    simp only [lineEnd, Cursor.space, Cursor.draw, Room.take_used, List.intercalate_singleton,
      columns, List.length_append, List.length_cons, List.length_nil] at used longer ⊢
    omega
  · have flushed : cursor.space.cursor.lead = [] := rfl
    rw [spaced.lead, flushed, if_neg drawn, ite_self]

theorem Cursor.Behind.writes_append (behind : cursor.Behind width start lead items)
    (shown : items ≠ []) (word : Text) :
    indentedLine lead items ++ (written cursor.space.strokes ++
        written (cursor.space.cursor.text word).strokes) =
      indentedLine lead (items ++ [word]) := by
  have text : written (cursor.space.cursor.text word).strokes = word :=
    Doc.writes_text_flush width 0 cursor.space.cursor word rfl
  rw [text, cursor.written_space, behind.lead, indentedLine_append lead items shown, indentedLine]
  by_cases nothing : [' '].intercalate items = []
  · simp [nothing]
  · simp [nothing]

theorem Cursor.Behind.fits_iff (behind : cursor.Behind width start lead items) (shown : items ≠ [])
    (word : Text) :
    cursor.room.fits (1 + columns word) = true ↔ lineEnd [' '] start (items ++ [word]) ≤ width := by
  have free := behind.room
  rw [Room.On, behind.used] at free
  rw [lineEnd_append [' '] start items word shown]
  simp only [Room.fits, decide_eq_true_eq, free, columns, List.length_append, List.length_singleton]
  omega

end Behind

theorem drawItems_rows (width indent : Nat) (words : List Text) (cursor : Cursor) (start : Nat)
    (lead : Text) (begun : List Text) (shown : begun ≠ [])
    (behind : cursor.Behind width start lead begun)
    (fits : lineEnd [' '] start begun ≤ width ∨ begun.length = 1) :
    ∃ more rest, more ++ rest.flatten = words ∧
      indentedLine lead begun ++
          written (drawItems width indent .broken cursor (words.map .text)).strokes =
        joinLines (indentedLines indent lead ((begun ++ more) :: rest)) ∧
      Cut width [' '] indent start ((begun ++ more) :: rest) ∧
      Filled width [' '] indent start ((begun ++ more) :: rest) := by
  induction words generalizing cursor start lead begun with
  | nil =>
      refine ⟨[], [], rfl, ?_, ?_, ?_⟩
      · simp [drawItems, Drawn.still, indentedLines]
      · rw [List.append_nil]
        exact .line shown fits .nil
      · exact .last
  | cons word words ih =>
      have beside := behind.fits_iff shown word
      rw [List.map_cons]
      by_cases goesOn : lineEnd [' '] start (begun ++ [word]) ≤ width
      · obtain ⟨more, rest, cut, text, isCut, isFilled⟩ :=
          ih _ start lead (begun ++ [word]) (by simp) (behind.append shown word) (.inl goesOn)
        refine ⟨word :: more, rest, by simp [cut], ?_, by simpa using isCut, by simpa using isFilled⟩
        rw [List.append_cons begun word more, ← text, ← behind.writes_append shown word,
          drawItems_beside width indent cursor word _ (beside.mpr goesOn)]
        simp [Drawn.followedBy, Drawn.forming]
      · have fresh := (lineStart width indent).behind_text width (Room.startLine_on width indent) word
        have startsAt : (lineStart width indent).room.used = indent := by
          simp [lineStart, Room.startLine, Room.ofWidth]
        rw [startsAt, lineStart_lead] at fresh
        obtain ⟨more, rest, cut, text, isCut, isFilled⟩ :=
          ih _ indent _ [word] (by simp) fresh (.inr rfl)
        refine ⟨[], (word :: more) :: rest, by simpa using cut, ?_, ?_, ?_⟩
        · have wordText : written ((lineStart width indent).text word).strokes =
              indentedLine (List.replicate indent ' ') [word] := by
            rw [indentedLine, List.intercalate_singleton, ← lineStart_lead width indent]
            exact Doc.writes_text width indent (lineStart width indent) word
          have below : joinLines (indentedLines indent lead ((begun ++ []) :: (word :: more) :: rest)) =
              indentedLine lead begun ++ '\n' ::
                joinLines (indentedLines indent (List.replicate indent ' ')
                  (([word] ++ more) :: rest)) := by
            simp [indentedLines]
          rw [below, ← text, ← wordText,
            drawItems_below width indent cursor word _ (mt beside.mp goesOn)]
          simp [Drawn.followedBy, Drawn.forming, newLine, Stroke.written]
        · rw [List.append_nil]
          exact .line shown fits isCut
        · rw [List.append_nil]
          exact .line (by omega) isFilled

theorem drawFill_rows (width indent : Nat) (words : List Text) (cursor : Cursor)
    (on : cursor.room.On width) :
    ∃ rows, rows.flatten = words ∧
      written (drawFill width indent .broken cursor (words.map .text)).strokes =
        joinLines (indentedLines indent cursor.lead rows) ∧
      Cut width [' '] indent cursor.room.used rows ∧
      Filled width [' '] indent cursor.room.used rows := by
  cases words with
  | nil => exact ⟨[], rfl, rfl, .nil, .nil⟩
  | cons word words =>
      obtain ⟨more, rest, cut, text, isCut, isFilled⟩ := drawItems_rows width indent words _
        cursor.room.used cursor.lead [word] (by simp) (cursor.behind_text width on word) (.inr rfl)
      refine ⟨_, by simpa using cut, ?_, isCut, isFilled⟩
      rw [← text, indentedLine, List.intercalate_singleton,
        ← Doc.writes_text width indent cursor word]
      simp [Doc.writes, drawFill, Drawn.followedBy, Drawn.forming, Doc.drawAt]

/-- A fill of words is cut into lines that stay on the page or hold one word, each line ends only
where the next word would have run past the page, and no other such cut has fewer lines. The first
line starts at column `start` and the others at `indent`, whether there is an indentation still to
come or not. -/
theorem Doc.words_fewest (width indent start : Nat) (pending : Option Nat) (words : List Text)
    (single : ∀ word ∈ words, '\n' ∉ word) :
    let cursor : Cursor := ⟨Room.startLine width start, pending⟩
    ∃ rows, rows.flatten = words ∧
      written (layFrames width [.laying indent .broken (Doc.words words)] cursor).strokes =
        joinLines (indentedLines indent cursor.lead rows) ∧
      (∀ line ∈ indentedLines indent cursor.lead rows, '\n' ∉ line) ∧
      Cut width [' '] indent start rows ∧ Filled width [' '] indent start rows ∧
      ∀ other, other.flatten = words → Cut width [' '] indent start other →
        rows.length ≤ other.length := by
  intro cursor
  have startsAt : cursor.room.used = start := by simp [cursor, Room.startLine, Room.ofWidth]
  obtain ⟨rows, cut, text, isCut, isFilled⟩ :=
    drawFill_rows width indent words cursor (Room.startLine_on width start)
  rw [startsAt] at isCut isFilled
  refine ⟨rows, cut, ?_, ?_, isCut, isFilled, ?_⟩
  · rw [layFrames_doc, ← text]
    rfl
  · have each : ∀ items ∈ rows, ∀ item ∈ items, '\n' ∉ item := by
      intro items member item inside
      exact single item (cut ▸ List.mem_flatten.mpr ⟨items, member, inside⟩)
    have leadSingle : '\n' ∉ cursor.lead := by
      cases pending <;> simp [cursor, Cursor.lead, pendingSpaces, Stroke.written]
    cases rows with
    | nil => simp [indentedLines]
    | cons first rest =>
        intro line member
        rcases List.mem_cons.mp member with rfl | below
        · exact newline_not_mem_indentedLine _ first leadSingle (each first (by simp))
        · obtain ⟨items, inRest, rfl⟩ := List.mem_map.mp below
          exact newline_not_mem_indentedLine _ items (by simp)
            (each items (List.mem_cons_of_mem first inRest))
  · intro other same otherCut
    exact isFilled.fewest isCut other otherCut (same.trans cut.symm)

theorem Doc.words_fewest_narrow :
    let words : List Text := [[], ['a', 'b'], [], ['c'], ['t', 'o', 'o', 'l', 'o', 'n', 'g']]
    (∀ word ∈ words, '\n' ∉ word) ∧
      ∃ rows, rows.flatten = words ∧
        joinLines (indentedLines 2 [] rows) = "\n  ab \n  c\n  toolong".toList ∧
        Cut 5 [' '] 2 3 rows ∧
        ∀ other, other.flatten = words → Cut 5 [' '] 2 3 other → rows.length ≤ other.length := by
  intro words
  have single : ∀ word ∈ words, '\n' ∉ word := by decide
  obtain ⟨rows, cut, text, -, isCut, -, fewest⟩ := Doc.words_fewest 5 2 3 none words single
  refine ⟨single, rows, cut, ?_, isCut, fewest⟩
  have drawn : written (layFrames 5 [.laying 2 .broken (Doc.words words)]
      ⟨Room.startLine 5 3, none⟩).strokes = "\n  ab \n  c\n  toolong".toList := by
    decide +kernel
  exact text.symm.trans drawn

end CommentFormat
