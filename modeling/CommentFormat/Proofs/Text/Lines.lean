import CommentFormat.Text.Lines

/-! Lines that are joined and cut again. -/

namespace CommentFormat

/-! Stretches: where a run of items that pass a test ends. -/

theorem takeWhile_stretch {α : Type} (test : α → Bool) (stretch rest : List α)
    (inside : ∀ item ∈ stretch, test item = true) (stop : ∀ item ∈ rest.head?, test item = false) :
    (stretch ++ rest).takeWhile test = stretch := by
  rw [List.takeWhile_append_of_pos inside]
  cases rest with
  | nil => simp
  | cons first later => simp [stop first (by simp)]

theorem dropWhile_stretch {α : Type} (test : α → Bool) (stretch rest : List α)
    (inside : ∀ item ∈ stretch, test item = true) (stop : ∀ item ∈ rest.head?, test item = false) :
    (stretch ++ rest).dropWhile test = rest := by
  rw [List.dropWhile_append_of_pos inside]
  cases rest with
  | nil => rfl
  | cons first later => simp [stop first (by simp)]

theorem stop_dropWhile {α : Type} (test : α → Bool) (items : List α) :
    ∀ item ∈ (items.dropWhile test).head?, test item = false := by
  intro item member
  have stop := List.head?_dropWhile_not test items
  rw [Option.mem_def.mp member] at stop
  simpa using stop

theorem of_mem_takeWhile {α : Type} (test : α → Bool) (items : List α) :
    ∀ item ∈ items.takeWhile test, test item = true :=
  List.all_eq_true.mp List.all_takeWhile

/-! Joining. -/

@[simp] theorem joinLines_nil : joinLines [] = [] := rfl

@[simp] theorem joinLines_singleton (line : Text) : joinLines [line] = line := by
  simp [joinLines]

@[simp] theorem joinLines_cons_cons (first second : Text) (rest : List Text) :
    joinLines (first :: second :: rest) = first ++ '\n' :: joinLines (second :: rest) := by
  simp [joinLines]

theorem joinLines_append (first second : List Text) (firstShown : first ≠ [])
    (secondShown : second ≠ []) :
    joinLines (first ++ second) = joinLines first ++ '\n' :: joinLines second := by
  induction first with
  | nil => contradiction
  | cons line rest ih =>
      cases rest with
      | nil =>
          obtain ⟨next, later, start⟩ := List.exists_cons_of_ne_nil secondShown
          simp [start]
      | cons next later => simpa using ih (by simp)

theorem joinLines_intercalate (groups : List (List Text)) (shown : ∀ group ∈ groups, group ≠ []) :
    joinLines ([[]].intercalate groups) = ['\n', '\n'].intercalate (groups.map joinLines) := by
  induction groups with
  | nil => rfl
  | cons group rest ih =>
      cases rest with
      | nil => simp
      | cons next later =>
          have groupShown : group ≠ [] := shown group (by simp)
          have nextShown : next ≠ [] := shown next (by simp)
          have laterShown : [[]].intercalate (next :: later) ≠ [] := by
            cases later <;> simp [nextShown]
          have ihNext := ih fun other member => shown other (by simp [member])
          have gap := joinLines_append [[]] ([[]].intercalate (next :: later)) (by simp) laterShown
          simp only [List.intercalate_cons_cons, List.map_cons, List.append_assoc]
          rw [joinLines_append group _ groupShown (by simp), gap, ihNext]
          simp

theorem not_mem_joinLines (character : Char) (texts : List Text) (notBreak : character ≠ '\n')
    (absent : ∀ text ∈ texts, character ∉ text) : character ∉ joinLines texts := by
  induction texts with
  | nil => simp
  | cons first rest ih =>
      cases rest with
      | nil => simpa using absent
      | cons next later =>
          have restAbsent := ih fun text member => absent text (by simp [member])
          simp only [joinLines_cons_cons, List.mem_append, List.mem_cons, not_or]
          exact ⟨absent first (by simp), notBreak, restAbsent⟩

theorem of_mem_splitOnP {α : Type} (test : α → Bool) (items piece : List α)
    (member : piece ∈ items.splitOnP test) :
    ∀ item ∈ piece, test item = false ∧ item ∈ items := by
  induction items generalizing piece with
  | nil =>
      have empty : piece = [] := by simpa using member
      simp [empty]
  | cons first rest ih =>
      rw [List.splitOnP_cons_eq_if_modifyHead] at member
      cases cut : test first with
      | true =>
          simp only [cut, ↓reduceIte, List.mem_cons] at member
          rcases member with empty | later
          · simp [empty]
          · intro item inside
            have known := ih piece later item inside
            exact ⟨known.1, List.mem_cons_of_mem first known.2⟩
      | false =>
          obtain ⟨head, tail, split⟩ := List.exists_cons_of_ne_nil (List.splitOnP_ne_nil test rest)
          simp only [cut, Bool.false_eq_true, ↓reduceIte, split, List.modifyHead_cons,
            List.mem_cons] at member
          intro item inside
          rcases member with extended | later
          · rw [extended, List.mem_cons] at inside
            rcases inside with same | behind
            · rw [same]
              exact ⟨cut, List.mem_cons_self⟩
            · have known := ih head (by simp [split]) item behind
              exact ⟨known.1, List.mem_cons_of_mem first known.2⟩
          · have known := ih piece (by simp [split, later]) item inside
            exact ⟨known.1, List.mem_cons_of_mem first known.2⟩

theorem of_mem_splitOn (separator : Char) (text piece : Text)
    (member : piece ∈ text.splitOn separator) :
    ∀ character ∈ piece, character ≠ separator ∧ character ∈ text := by
  intro character inside
  rw [List.splitOn_eq_splitOnP] at member
  simpa using of_mem_splitOnP (· == separator) text piece member character inside

theorem separator_not_mem_of_mem_splitOn (separator : Char) (text piece : Text)
    (member : piece ∈ text.splitOn separator) : separator ∉ piece := by
  intro inside
  exact (of_mem_splitOn separator text piece member separator inside).1 rfl

theorem isBlank_of_mem_splitOn (separator : Char) (text piece : Text) (blank : isBlank text = true)
    (member : piece ∈ text.splitOn separator) : isBlank piece = true := by
  rw [isBlank, List.all_eq_true] at blank ⊢
  intro character inside
  exact blank character (of_mem_splitOn separator text piece member character inside).2

theorem joinLines_inj (first second : List Text) (firstShown : first ≠ []) (secondShown : second ≠ [])
    (firstSingle : ∀ line ∈ first, '\n' ∉ line) (secondSingle : ∀ line ∈ second, '\n' ∉ line) :
    joinLines first = joinLines second ↔ first = second := by
  refine ⟨fun same => ?_, fun same => by rw [same]⟩
  rw [← splitOn_joinLines first firstShown firstSingle, same,
    splitOn_joinLines second secondShown secondSingle]

theorem joinLines_splitOn (text : Text) : joinLines (text.splitOn '\n') = text :=
  List.intercalate_splitOn '\n'

theorem mem_intercalate {α : Type} (separator : List α) (groups : List (List α)) (item : α)
    (member : item ∈ separator.intercalate groups) :
    item ∈ separator ∨ ∃ group ∈ groups, item ∈ group := by
  induction groups with
  | nil => simp at member
  | cons group rest ih =>
      cases rest with
      | nil => exact .inr ⟨group, by simp, by simpa using member⟩
      | cons next later =>
          rw [List.intercalate_cons_cons, List.mem_append, List.mem_append] at member
          rcases member with (here | between) | behind
          · exact .inr ⟨group, by simp, here⟩
          · exact .inl between
          · rcases ih behind with inSeparator | ⟨other, inRest, inside⟩
            · exact .inl inSeparator
            · exact .inr ⟨other, List.mem_cons_of_mem group inRest, inside⟩

theorem infix_intercalate {α : Type} (separator : List α) (groups : List (List α)) (group : List α)
    (member : group ∈ groups) : group <:+: separator.intercalate groups := by
  induction groups with
  | nil => simp at member
  | cons first rest ih =>
      cases rest with
      | nil =>
          have same : group = first := by simpa using member
          simp [same]
      | cons next later =>
          rw [List.intercalate_cons_cons]
          rcases List.mem_cons.mp member with rfl | behind
          · rw [List.append_assoc]
            exact (List.prefix_append _ _).isInfix
          · exact (ih behind).trans (List.suffix_append _ _).isInfix

theorem eq_of_mem_endedLines_singleton (piece line : Text) (member : line ∈ endedLines [piece]) :
    line = piece := by
  by_cases empty : piece = []
  · simp [endedLines, empty] at member
  · simpa [endedLines, empty] using member

theorem exists_piece_of_mem_lines (text line : Text) (member : line ∈ lines text) :
    ∃ piece ∈ text.splitOn '\n', line.Sublist piece := by
  unfold lines at member
  generalize text.splitOn '\n' = pieces at member
  induction pieces with
  | nil => simp [endedLines] at member
  | cons piece rest ih =>
      cases rest with
      | nil =>
          have same := eq_of_mem_endedLines_singleton piece line member
          exact ⟨piece, by simp, same ▸ List.Sublist.refl piece⟩
      | cons next later =>
          rcases List.mem_cons.mp member with same | deeper
          · exact ⟨piece, by simp, same ▸ dropReturn_sublist piece⟩
          · obtain ⟨other, inRest, shorter⟩ := ih deeper
            exact ⟨other, List.mem_cons_of_mem piece inRest, shorter⟩

theorem newline_not_mem_lines (text : Text) : ∀ line ∈ lines text, '\n' ∉ line := by
  intro line member inside
  obtain ⟨piece, inText, shorter⟩ := exists_piece_of_mem_lines text line member
  exact separator_not_mem_of_mem_splitOn '\n' text piece inText (shorter.subset inside)

theorem mem_of_mem_lines (text line : Text) (member : line ∈ lines text) :
    ∀ character ∈ line, character ∈ text := by
  intro character inside
  obtain ⟨piece, inText, shorter⟩ := exists_piece_of_mem_lines text line member
  exact (of_mem_splitOn '\n' text piece inText character (shorter.subset inside)).2

/-! Lines of a text whose last line is ended too. -/

theorem endedLines_append_nil (pieces : List Text) :
    endedLines (pieces ++ [[]]) = pieces.map dropReturn := by
  induction pieces with
  | nil => rfl
  | cons piece rest ih =>
      cases rest with
      | nil => simp [endedLines]
      | cons next later => simpa [endedLines] using ih

theorem lines_joinLines_newline (texts : List Text) (shown : texts ≠ [])
    (single : ∀ text ∈ texts, '\n' ∉ text) :
    lines (joinLines texts ++ ['\n']) = texts.map dropReturn := by
  have ended : joinLines texts ++ ['\n'] = joinLines (texts ++ [[]]) := by
    simp [joinLines_append texts [[]] shown]
  rw [lines, ended, splitOn_joinLines _ (by simp), endedLines_append_nil]
  intro text member
  rcases List.mem_append.mp member with inside | last
  · exact single text inside
  · simp [List.mem_singleton.mp last]

theorem dropReturn_of_not_mem (line : Text) (absent : '\r' ∉ line) : dropReturn line = line := by
  rw [dropReturn, if_neg]
  intro last
  exact absent (List.mem_of_getLast? last)

theorem dropReturn_append_return (line : Text) : dropReturn (line ++ ['\r']) = line := by
  simp [dropReturn]

theorem dropReturn_isPrefix (line : Text) : dropReturn line <+: line := by
  unfold dropReturn
  split
  · exact List.dropLast_prefix line
  · exact List.prefix_rfl

theorem head?_dropReturn (line : Text) :
    ∀ character ∈ (dropReturn line).head?, character ∈ line.head? := by
  intro character isFirst
  obtain ⟨ending, cut⟩ := dropReturn_isPrefix line
  rw [← cut, List.head?_append, Option.mem_def.mp isFirst]
  rfl

theorem isBlank_dropReturn (line : Text) (blank : isBlank line = true) :
    isBlank (dropReturn line) = true := by
  rw [isBlank, List.all_eq_true] at blank ⊢
  exact fun character inside => blank character ((dropReturn_sublist line).subset inside)

theorem dropReturn_append (lead line : Text) (absent : '\r' ∉ lead) :
    dropReturn (lead ++ line) = lead ++ dropReturn line := by
  cases line with
  | nil => simpa [dropReturn] using dropReturn_of_not_mem lead absent
  | cons first rest =>
      have last : (lead ++ first :: rest).getLast? = (first :: rest).getLast? := by
        simp [List.getLast?_append, List.getLast?_cons]
      rw [dropReturn, last, dropReturn]
      split
      · exact List.dropLast_append_of_ne_nil (by simp)
      · rfl

theorem endedLines_eq_self (texts : List Text) (kept : ∀ text ∈ texts, dropReturn text = text)
    (last : ∀ text ∈ texts.getLast?, text ≠ []) : endedLines texts = texts := by
  induction texts with
  | nil => rfl
  | cons first rest ih =>
      cases rest with
      | nil =>
          have lastShown : first ≠ [] := last first (by simp)
          simp [endedLines, lastShown]
      | cons next later =>
          have restKept := ih (fun text member => kept text (by simp [member]))
            (fun text member => last text (by simpa using member))
          rw [endedLines, kept first (by simp), restKept]

theorem lines_joinLines (texts : List Text) (shown : texts ≠ [])
    (single : ∀ text ∈ texts, '\n' ∉ text) (absent : ∀ text ∈ texts, '\r' ∉ text)
    (last : ∀ text ∈ texts.getLast?, text ≠ []) : lines (joinLines texts) = texts := by
  rw [lines, splitOn_joinLines texts shown single, endedLines_eq_self texts ?_ last]
  exact fun text member => dropReturn_of_not_mem text (absent text member)

/-! Texts in which carriage returns only end lines. -/

def ReturnsEndLines (text : Text) : Prop :=
  ∀ before after, text = before ++ '\r' :: after → after.head? = some '\n'

theorem ReturnsEndLines.of_append (first second : Text) (ended : ReturnsEndLines (first ++ second)) :
    ReturnsEndLines second := by
  intro before after found
  exact ended (first ++ before) after (by simp [found])

theorem returnsEndLines_cons_iff (character : Char) (rest : Text) :
    ReturnsEndLines (character :: rest) ↔
      (character = '\r' → rest.head? = some '\n') ∧ ReturnsEndLines rest := by
  constructor
  · intro ended
    exact ⟨fun isReturn => ended [] rest (by simp [isReturn]), ended.of_append [character]⟩
  · rintro ⟨first, restEnded⟩ before after found
    cases before with
    | nil =>
        obtain ⟨isReturn, same⟩ := List.cons.inj found
        exact same ▸ first isReturn
    | cons other earlier => exact restEnded earlier after (List.cons.inj found).2

instance decidableReturnsEndLines : DecidablePred ReturnsEndLines
  | [] => isTrue (by simp [ReturnsEndLines])
  | character :: rest =>
      have := decidableReturnsEndLines rest
      decidable_of_iff _ (returnsEndLines_cons_iff character rest).symm

theorem return_not_mem_dropReturn (piece rest : Text) (single : '\n' ∉ piece)
    (ended : ReturnsEndLines (piece ++ '\n' :: rest)) : '\r' ∉ dropReturn piece := by
  have final : ∀ before after, piece = before ++ '\r' :: after → after = [] := by
    intro before after found
    have next := ended before (after ++ '\n' :: rest) (by simp [found])
    cases after with
    | nil => rfl
    | cons character later =>
        have feed : character = '\n' := by simpa using next
        exact absurd (by simp [found, feed]) single
  intro inside
  obtain ⟨before, after, found⟩ := List.append_of_mem (dropReturn_sublist piece |>.subset inside)
  have last : piece = before ++ ['\r'] := by rw [found, final before after found]
  rw [last, dropReturn_append_return] at inside
  obtain ⟨earlier, between, again⟩ := List.append_of_mem inside
  have none := final earlier (between ++ ['\r']) (by simp [last, again])
  simp at none

theorem return_not_mem_lines (text : Text) (ended : ReturnsEndLines text) :
    ∀ line ∈ lines text, '\r' ∉ line := by
  have single := separator_not_mem_of_mem_splitOn '\n' text
  rw [← joinLines_splitOn text] at ended
  unfold lines
  generalize text.splitOn '\n' = pieces at single ended
  induction pieces with
  | nil => simp [endedLines]
  | cons piece rest ih =>
      cases rest with
      | nil =>
          intro line member inside
          have same := eq_of_mem_endedLines_singleton piece line member
          obtain ⟨before, after, found⟩ := List.append_of_mem (same ▸ inside)
          have next := ended before after (by simpa using found)
          have feed : '\n' ∈ piece := by
            rw [found]
            exact List.mem_append_right before
              (List.mem_cons_of_mem _ (List.mem_of_mem_head? next))
          exact single piece (by simp) feed
      | cons next later =>
          rw [joinLines_cons_cons] at ended
          have behind : ReturnsEndLines (joinLines (next :: later)) :=
            ReturnsEndLines.of_append (piece ++ ['\n']) _ (by simpa using ended)
          intro line member
          rcases List.mem_cons.mp member with same | deeper
          · rw [same]
            exact return_not_mem_dropReturn piece _ (single piece (by simp)) ended
          · exact ih (fun other inRest => single other (by simp [inRest])) behind line deeper

end CommentFormat
