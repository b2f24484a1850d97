import CommentFormat.Proofs.Text.Lines
import CommentFormat.Text.Words
import Mathlib.Data.List.DropRight

/-! How a line opens: the white space and the word it starts with. What a line is read as
depends on little more than that. -/

namespace CommentFormat

structure IsWord (word : Text) : Prop where
  shown : word ≠ []
  solid : ∀ character ∈ word, isSpace character = false

theorem isWord_of_mem_words (text word : Text) (member : word ∈ words text) : IsWord word := by
  simp only [words, List.mem_filter, Bool.not_eq_true', List.isEmpty_eq_false_iff] at member
  exact ⟨member.2, fun character inside =>
    (of_mem_splitOnP isSpace text word member.1 character inside).1⟩

theorem mem_of_mem_words (text word : Text) (member : word ∈ words text) :
    ∀ character ∈ word, character ∈ text := by
  intro character inside
  exact (of_mem_splitOnP isSpace text word (List.mem_filter.mp member).1 character inside).2

theorem words_of_isWord (word : Text) (isWord : IsWord word) : words word = [word] := by
  simp [words, List.splitOnP_eq_singleton isWord.solid, isWord.shown]

theorem words_of_isBlank (text : Text) (blank : isBlank text = true) : words text = [] := by
  induction text with
  | nil => rfl
  | cons character rest ih =>
      simp only [isBlank_cons, Bool.and_eq_true] at blank
      rw [words_cons_space character rest blank.1, ih blank.2]

theorem words_joinLines (texts : List Text) : words (joinLines texts) = texts.flatMap words := by
  induction texts with
  | nil => rfl
  | cons first rest ih =>
      cases rest with
      | nil => simp
      | cons next later =>
          have newline : isSpace '\n' = true := by decide
          rw [joinLines_cons_cons, words_append_space first _ '\n' newline, ih]
          rfl

theorem words_dropReturn (line : Text) : words (dropReturn line) = words line := by
  unfold dropReturn
  split
  · next returned =>
      obtain ⟨before, cut⟩ := List.getLast?_eq_some_iff.mp returned
      have space : isSpace '\r' = true := by decide
      rw [cut, List.dropLast_concat, words_append_space before [] '\r' space, words_nil,
        List.append_nil]
  · rfl

theorem words_lines (text : Text) : (lines text).flatMap words = words text := by
  have pieces : words text = (text.splitOn '\n').flatMap words := by
    rw [← words_joinLines, joinLines_splitOn]
  rw [pieces, lines]
  induction text.splitOn '\n' with
  | nil => rfl
  | cons piece rest ih =>
      cases rest with
      | nil =>
          by_cases empty : piece = []
          · simp [endedLines, empty]
          · simp [endedLines, empty]
      | cons next later =>
          rw [endedLines, List.flatMap_cons, ih, words_dropReturn, ← List.flatMap_cons]

theorem trimEnd_eq_rdropWhile (text : Text) : trimEnd text = text.rdropWhile isSpace := rfl

theorem trimEnd_trimEnd (text : Text) : trimEnd (trimEnd text) = trimEnd text :=
  List.rdropWhile_idempotent isSpace text

theorem exists_trimEnd (text : Text) :
    ∃ white, text = trimEnd text ++ white ∧ isBlank white = true := by
  refine ⟨text.rtakeWhile isSpace, List.rdropWhile_append_rtakeWhile.symm, ?_⟩
  rw [isBlank, List.all_eq_true]
  exact fun character member => List.mem_rtakeWhile_imp member

theorem trimEnd_append_of_shown (before after : Text)
    (shown : ∀ character ∈ before.getLast?, isSpace character = false) :
    trimEnd (before ++ after) = before ++ trimEnd after := by
  simp only [trimEnd_eq_rdropWhile]
  induction after using List.reverseRecOn with
  | nil =>
      rw [List.append_nil, List.rdropWhile_nil, List.append_nil, List.rdropWhile_eq_self_iff]
      intro nonempty
      simp [shown _ (List.getLast?_eq_some_getLast nonempty)]
  | append_singleton rest character ih =>
      rw [← List.append_assoc]
      by_cases space : isSpace character = true
      · rw [List.rdropWhile_concat_pos _ _ _ space, List.rdropWhile_concat_pos _ _ _ space, ih]
      · rw [List.rdropWhile_concat_neg _ _ _ space, List.rdropWhile_concat_neg _ _ _ space,
          List.append_assoc]

theorem words_trimEnd (text : Text) : words (trimEnd text) = words text := by
  obtain ⟨white, cut, blank⟩ := exists_trimEnd text
  cases white with
  | nil => rw [← List.append_nil (trimEnd text), ← cut]
  | cons character rest =>
      rw [isBlank_cons, Bool.and_eq_true] at blank
      nth_rewrite 2 [cut]
      rw [words_append_space _ rest character blank.1, words_of_isBlank rest blank.2,
        List.append_nil]

/-- A line that starts with the white space `lead` and the word `word`; `tail` is the rest. -/
structure Opening (line lead word tail : Text) : Prop where
  cut : line = lead ++ (word ++ tail)
  white : ∀ character ∈ lead, isSpace character = true
  isWord : IsWord word
  ending : ∀ character ∈ tail.head?, isSpace character = true

theorem exists_opening (line : Text) (shown : isBlank line = false) :
    ∃ lead word tail, Opening line lead word tail := by
  have content : trimStart line ≠ [] := by
    intro empty
    rw [trimStart_eq_nil_iff, shown] at empty
    contradiction
  obtain ⟨first, rest, start⟩ := List.exists_cons_of_ne_nil content
  have firstShown : isSpace first = false :=
    stop_dropWhile isSpace line first (by rw [← trimStart, start]; simp)
  refine ⟨leadingSpace line, (trimStart line).takeWhile fun character => !isSpace character,
    (trimStart line).dropWhile fun character => !isSpace character, ?_, ?_, ⟨?_, ?_⟩, ?_⟩
  · rw [List.takeWhile_append_dropWhile, leadingSpace_append_trimStart]
  · exact of_mem_takeWhile isSpace line
  · simp [start, firstShown]
  · intro character inside
    simpa using of_mem_takeWhile (fun character => !isSpace character) _ character inside
  · intro character inside
    simpa using stop_dropWhile (fun character => !isSpace character) _ character inside

theorem opening_of_isWord (word : Text) (isWord : IsWord word) : Opening word [] word [] :=
  ⟨by simp, by simp, isWord, by simp⟩

namespace Opening

variable {line lead word tail : Text} (opening : Opening line lead word tail)

include opening

theorem append_space (more : Text) : Opening (line ++ ' ' :: more) lead word (tail ++ ' ' :: more) := by
  refine ⟨by simp [opening.cut], opening.white, opening.isWord, ?_⟩
  intro character inside
  cases tail with
  | nil =>
      have space : character = ' ' := by simpa [eq_comm] using inside
      rw [space]
      decide
  | cons first rest => exact opening.ending character (by simpa using inside)

theorem word_eq_cons : ∃ first rest, word = first :: rest ∧ isSpace first = false := by
  obtain ⟨first, rest, start⟩ := List.exists_cons_of_ne_nil opening.isWord.shown
  exact ⟨first, rest, start, opening.isWord.solid first (by simp [start])⟩

theorem leadingSpace_eq : leadingSpace line = lead := by
  obtain ⟨first, rest, start, shown⟩ := opening.word_eq_cons
  rw [leadingSpace, opening.cut, takeWhile_stretch isSpace lead _ opening.white]
  simp [start, shown]

theorem trimStart_eq : trimStart line = word ++ tail := by
  obtain ⟨first, rest, start, shown⟩ := opening.word_eq_cons
  rw [trimStart, opening.cut, dropWhile_stretch isSpace lead _ opening.white]
  simp [start, shown]

theorem isBlank_eq : isBlank line = false := by
  obtain ⟨first, rest, start, shown⟩ := opening.word_eq_cons
  simp [isBlank, opening.cut, start, shown]

theorem words_eq : words line = word :: words tail := by
  have lead_words : ∀ text, words (lead ++ text) = words text := by
    have white := opening.white
    clear opening
    induction lead with
    | nil => simp
    | cons character rest ih =>
        intro text
        rw [List.cons_append, words_cons_space character _ (white character (by simp))]
        exact ih (fun other member => white other (by simp [member])) text
  rw [opening.cut, lead_words]
  cases tail with
  | nil => simp [words_of_isWord word opening.isWord]
  | cons character rest =>
      have space := opening.ending character (by simp)
      rw [words_append_space word rest character space, words_of_isWord word opening.isWord,
        words_cons_space character rest space]
      rfl

theorem isPrefixOf_trimStart (mark : Text) (solid : ∀ character ∈ mark, isSpace character = false) :
    mark.isPrefixOf (trimStart line) = mark.isPrefixOf word := by
  rw [opening.trimStart_eq]
  have ending := opening.ending
  clear opening
  induction mark generalizing word with
  | nil => simp
  | cons character rest ih =>
      cases word with
      | nil =>
          cases tail with
          | nil => rfl
          | cons next later =>
              have different : character ≠ next := by
                intro same
                have shown := solid character (by simp)
                rw [same, ending next (by simp)] at shown
                contradiction
              simp [List.isPrefixOf, different]
      | cons next later =>
          have restSame := @ih later fun other member => solid other (by simp [member])
          simp [List.isPrefixOf, restSame]

theorem trimEnd : Opening (trimEnd line) lead word (CommentFormat.trimEnd tail) := by
  have solid : ∀ character ∈ (lead ++ word).getLast?, isSpace character = false := by
    intro character last
    rw [List.getLast?_append_of_ne_nil lead opening.isWord.shown] at last
    exact opening.isWord.solid character (List.mem_of_getLast? last)
  refine ⟨?_, opening.white, opening.isWord, ?_⟩
  · rw [opening.cut, ← List.append_assoc, trimEnd_append_of_shown _ _ solid, List.append_assoc]
  · intro character inside
    obtain ⟨white, cut, -⟩ := exists_trimEnd tail
    refine opening.ending character ?_
    rw [cut, List.head?_append]
    simp [Option.mem_def.mp inside]

end Opening

end CommentFormat
