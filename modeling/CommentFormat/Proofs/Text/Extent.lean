import CommentFormat.Proofs.Text.Opening

/-! The extent of texts, which cutting them into lines and words does not enlarge. -/

namespace CommentFormat

def extent : List Text → Nat
  | [] => 0
  | text :: rest => text.length + 1 + extent rest

@[simp] theorem extent_nil : extent [] = 0 := rfl

@[simp] theorem extent_cons (text : Text) (rest : List Text) :
    extent (text :: rest) = text.length + 1 + extent rest := rfl

@[simp] theorem extent_append (first second : List Text) :
    extent (first ++ second) = extent first + extent second := by
  induction first with
  | nil => simp
  | cons text rest ih =>
      rw [List.cons_append, extent_cons, extent_cons, ih]
      omega

theorem extent_filter_le (test : Text → Bool) (texts : List Text) :
    extent (texts.filter test) ≤ extent texts := by
  induction texts with
  | nil => simp
  | cons text rest ih =>
      cases kept : test text with
      | true => simpa [kept] using ih
      | false =>
          simp only [List.filter_cons, kept, Bool.false_eq_true, ↓reduceIte, extent_cons]
          omega

theorem extent_splitOnP (test : Char → Bool) (text : Text) :
    extent (text.splitOnP test) = text.length + 1 := by
  induction text with
  | nil => simp
  | cons first rest ih =>
      rw [List.splitOnP_cons_eq_if_modifyHead]
      obtain ⟨head, tail, split⟩ := List.exists_cons_of_ne_nil (List.splitOnP_ne_nil test rest)
      rw [split, extent_cons] at ih
      cases cut : test first with
      | true =>
          simp only [↓reduceIte, split, extent_cons, List.length_nil, List.length_cons]
          omega
      | false =>
          simp only [Bool.false_eq_true, ↓reduceIte, split, List.modifyHead_cons, extent_cons,
            List.length_cons]
          omega

theorem extent_splitOn (separator : Char) (text : Text) :
    extent (text.splitOn separator) = text.length + 1 := by
  rw [List.splitOn_eq_splitOnP, extent_splitOnP]

theorem extent_words_le (text : Text) : extent (words text) ≤ text.length + 1 := by
  rw [← extent_splitOnP isSpace text]
  exact extent_filter_le _ _

theorem extent_flatMap_words_le (texts : List Text) : extent (texts.flatMap words) ≤ extent texts := by
  induction texts with
  | nil => simp
  | cons text rest ih =>
      have here := extent_words_le text
      rw [List.flatMap_cons, extent_append, extent_cons]
      omega

theorem extent_lines_le (text : Text) : extent (lines text) ≤ text.length + 1 := by
  rw [← extent_splitOn '\n' text, lines]
  induction text.splitOn '\n' with
  | nil => simp [endedLines]
  | cons piece rest ih =>
      cases rest with
      | nil =>
          by_cases empty : piece = []
          · simp [endedLines, empty]
          · simp [endedLines, empty]
      | cons next later =>
          have shorter := (dropReturn_sublist piece).length_le
          rw [endedLines, extent_cons, extent_cons]
          omega

theorem length_joinLines_le (texts : List Text) : (joinLines texts).length ≤ extent texts := by
  induction texts with
  | nil => simp
  | cons text rest ih =>
      cases rest with
      | nil => simp
      | cons next later =>
          simp only [joinLines_cons_cons, List.length_append, List.length_cons, extent_cons] at ih ⊢
          omega

end CommentFormat
