import CommentFormat.Proofs.Body.NormalForm

/-! Names as they stand on a tag line: what commas separate, and white space does not change. -/

namespace CommentFormat

theorem trim_cons_space (character : Char) (text : Text) (space : isSpace character = true) :
    trim (character :: text) = trim text := by
  simp [trim, trimStart, space]

theorem trim_append_space (text : Text) (character : Char) (space : isSpace character = true) :
    trim (text ++ [character]) = trim text := by
  rw [trim, trimStart, List.dropWhile_append]
  split
  · next blank =>
      rw [trim, trimStart, List.isEmpty_iff.mp blank, List.dropWhile_cons_of_pos space]
      rfl
  · exact List.rdropWhile_concat_pos isSpace _ _ space

theorem tagNames_append_comma (before after : Text) :
    tagNames (before ++ ',' :: after) = tagNames before ++ tagNames after := by
  rw [tagNames, List.splitOn_append_cons_self, List.map_append, List.filter_append]
  rfl

theorem tagNames_of_not_mem (text : Text) (noComma : ',' ∉ text) :
    tagNames text = if trim text = [] then [] else [trim text] := by
  have alone : text.splitOn ',' = [text] := by
    have single : ∀ piece ∈ [text], ',' ∉ piece := by simpa using noComma
    simpa using List.splitOn_intercalate ',' single (by simp)
  rw [tagNames, alone]
  by_cases empty : trim text = [] <;> simp [empty]

theorem tagNames_of_isName (name : Text) (named : IsName name) : tagNames name = [name] := by
  rw [tagNames_of_not_mem name named.noComma, named.trimmed, if_neg named.shown]

theorem tagNames_cons_space (character : Char) (text : Text) (space : isSpace character = true) :
    tagNames (character :: text) = tagNames text := by
  by_cases comma : ',' ∈ text
  · obtain ⟨before, after, cut⟩ := List.append_of_mem comma
    rw [cut, ← List.cons_append, tagNames_append_comma, tagNames_append_comma,
      tagNames_cons_space character before space]
  · have notComma : ',' ≠ character := by
      rintro rfl
      exact absurd space (by decide)
    rw [tagNames_of_not_mem text comma, tagNames_of_not_mem _ (by simp [notComma, comma]),
      trim_cons_space character text space]
termination_by text.length
decreasing_by simp [cut]

theorem tagNames_append_space (text : Text) (character : Char) (space : isSpace character = true) :
    tagNames (text ++ [character]) = tagNames text := by
  by_cases comma : ',' ∈ text
  · obtain ⟨before, after, cut⟩ := List.append_of_mem comma
    rw [cut, List.append_assoc, List.cons_append, tagNames_append_comma, tagNames_append_comma,
      tagNames_append_space after character space]
  · have notComma : ',' ≠ character := by
      rintro rfl
      exact absurd space (by decide)
    rw [tagNames_of_not_mem text comma, tagNames_of_not_mem _ (by simp [notComma, comma]),
      trim_append_space text character space]
termination_by text.length
decreasing_by
  simp only [cut, List.length_append, List.length_cons]
  omega

theorem tagNames_dropReturn (text : Text) : tagNames (dropReturn text) = tagNames text := by
  rw [dropReturn]
  split
  · next last =>
      rw [← tagNames_append_space text.dropLast '\r' (by decide),
        List.dropLast_append_getLast? '\r' last]
  · rfl

theorem tagNames_spread (names : List Text) :
    tagNames (' ' :: nameSeparator.intercalate names) = names.flatMap tagNames := by
  have space : isSpace ' ' = true := by decide
  rw [tagNames_cons_space ' ' _ space]
  induction names with
  | nil => rfl
  | cons name rest ih =>
      cases rest with
      | nil => simp
      | cons next later =>
          have regrouped : nameSeparator.intercalate (name :: next :: later) =
              name ++ ',' :: ' ' :: nameSeparator.intercalate (next :: later) := by
            simp [nameSeparator]
          rw [regrouped, tagNames_append_comma, tagNames_cons_space ' ' _ space, ih]
          exact List.flatMap_cons.symm

theorem flatMap_tagNames (names : List Text) (named : ∀ name ∈ names, IsName name) :
    names.flatMap tagNames = names := by
  induction names with
  | nil => rfl
  | cons name rest ih =>
      have restNamed := ih fun other member => named other (List.mem_cons_of_mem name member)
      rw [List.flatMap_cons, restNamed, tagNames_of_isName name (named name (by simp))]
      rfl

end CommentFormat
