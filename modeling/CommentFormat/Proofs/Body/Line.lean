import CommentFormat.Body.Line
import CommentFormat.Proofs.Text.Lines
import Mathlib.Data.List.Basic

/-! Lines whose indentation is in spaces, and what such lines are read as. -/

namespace CommentFormat

structure Spaced (line content : Text) (count : Nat) : Prop where
  cut : line = List.replicate count ' ' ++ content
  start : ∀ character ∈ content.head?, isIndent character = false

theorem isIndent_space : isIndent ' ' = true := rfl

theorem not_space_of_not_isIndent (character : Char) (plain : isIndent character = false) :
    character ≠ ' ' := by
  intro space
  rw [space, isIndent_space] at plain
  contradiction

namespace Spaced

variable {line content : Text} {count : Nat} (spaced : Spaced line content count)

include spaced

theorem takeWhile_eq : line.takeWhile isIndent = List.replicate count ' ' := by
  rw [spaced.cut, takeWhile_stretch isIndent _ _ (by simp [isIndent_space]) spaced.start]

theorem dropWhile_eq : line.dropWhile isIndent = content := by
  rw [spaced.cut, dropWhile_stretch isIndent _ _ (by simp [isIndent_space]) spaced.start]

theorem indentOf_eq : indentOf line = count := by
  rw [indentOf, spaced.cut, takeWhile_stretch _ _ _ (by simp), List.length_replicate]
  intro character inside
  simpa using not_space_of_not_isIndent character (spaced.start character inside)

theorem isBlank_eq : isBlank line = isBlank content := by
  rw [spaced.cut, isBlank_replicate_append]

theorem drop (skipped : Nat) (inside : skipped ≤ count) :
    Spaced (line.drop skipped) content (count - skipped) := by
  refine ⟨?_, spaced.start⟩
  rw [spaced.cut, List.drop_append_of_le_length (by simpa using inside), List.drop_replicate]

theorem detab_eq : detab line = line := by
  have noTab : '\t' ∉ line.takeWhile isIndent := by
    rw [spaced.takeWhile_eq]
    simp
  simp [detab, detab?, noTab]

theorem read_blank (baseIndent : Nat) (blank : isBlank content = true) :
    Line.read baseIndent line = .blank := by
  simp [Line.read, spaced.isBlank_eq, blank]

theorem read_code (baseIndent : Nat) (shown : isBlank content = false)
    (deep : baseIndent + indentStep ≤ count) :
    Line.read baseIndent line = .code (line.drop (baseIndent + indentStep)) := by
  simp [Line.read, spaced.isBlank_eq, spaced.indentOf_eq, shown, deep]

theorem read_tags (baseIndent : Nat) (rest : Text) (shown : isBlank content = false)
    (shallow : count < baseIndent + indentStep) (tagged : afterTagWord? content = some rest) :
    Line.read baseIndent line = .tags rest := by
  have cut : line.drop count = content := by simp [spaced.cut]
  simp [Line.read, spaced.isBlank_eq, spaced.indentOf_eq, shown, shallow, cut, tagged]

theorem read_prose (baseIndent : Nat) (shown : isBlank content = false)
    (shallow : count < baseIndent + indentStep) (untagged : afterTagWord? content = none) :
    Line.read baseIndent line = .prose (line.drop (min count baseIndent)) := by
  have cut : line.drop count = content := by simp [spaced.cut]
  simp [Line.read, spaced.isBlank_eq, spaced.indentOf_eq, shown, shallow, cut, untagged]

end Spaced

theorem spaced_of_noTab (line : Text) (noTab : '\t' ∉ line.takeWhile isIndent) :
    Spaced line (line.dropWhile isIndent) (line.takeWhile isIndent).length := by
  refine ⟨?_, ?_⟩
  · have spaces : line.takeWhile isIndent =
        List.replicate (line.takeWhile isIndent).length ' ' := by
      apply List.eq_replicate_of_mem
      intro character inside
      have indent := of_mem_takeWhile isIndent line character inside
      simp only [isIndent, Bool.or_eq_true, decide_eq_true_eq] at indent
      rcases indent with space | tab
      · exact space
      · exact absurd (tab ▸ inside) noTab
    rw [← spaces, List.takeWhile_append_dropWhile]
  · exact stop_dropWhile isIndent line

theorem exists_detabFrom_eq (column : Nat) (line : Text) :
    ∃ count, detabFrom column line = List.replicate count ' ' ++ line.dropWhile isIndent := by
  induction line generalizing column with
  | nil => exact ⟨0, rfl⟩
  | cons first rest ih =>
      by_cases space : first = ' '
      · obtain ⟨count, spread⟩ := ih (column + 1)
        refine ⟨count + 1, ?_⟩
        rw [space, List.dropWhile_cons_of_pos isIndent_space]
        simp [detabFrom, spread, List.replicate_succ]
      · by_cases tab : first = '\t'
        · obtain ⟨count, spread⟩ := ih (column + (indentStep - column % indentStep))
          refine ⟨(indentStep - column % indentStep) + count, ?_⟩
          rw [tab, List.dropWhile_cons_of_pos (by rfl), List.replicate_add, List.append_assoc,
            ← spread]
          simp [detabFrom]
        · have plain : isIndent first = false := by simp [isIndent, space, tab]
          exact ⟨0, by simp [detabFrom, space, tab, plain]⟩

theorem exists_spaced_detab (line : Text) :
    ∃ count, Spaced (detab line) (line.dropWhile isIndent) count := by
  by_cases tab : '\t' ∈ line.takeWhile isIndent
  · obtain ⟨count, spread⟩ := exists_detabFrom_eq 0 line
    exact ⟨count, by simp [detab, detab?, tab, spread], stop_dropWhile isIndent line⟩
  · have spaced := spaced_of_noTab line tab
    refine ⟨(line.takeWhile isIndent).length, ?_⟩
    rw [spaced.detab_eq]
    exact spaced

theorem detab_detab (line : Text) : detab (detab line) = detab line := by
  obtain ⟨count, spaced⟩ := exists_spaced_detab line
  exact spaced.detab_eq

def OpensTags (content : Text) : Prop :=
  ∃ rest, content = tagWord ++ rest ∧ ∀ character ∈ rest.head?, isSpace character = true

theorem afterTagWord?_eq_some_iff (content rest : Text) :
    afterTagWord? content = some rest ↔
      content = tagWord ++ rest ∧ ∀ character ∈ rest.head?, isSpace character = true := by
  have ending (other : Text) : (other.head?.all isSpace = true) ↔
      ∀ character ∈ other.head?, isSpace character = true := by
    cases other <;> simp
  unfold afterTagWord?
  cases found : tagWord.isPrefixOf? content with
  | none =>
      have absent : content ≠ tagWord ++ rest := by
        intro cut
        have present := List.isPrefixOf?_eq_some_iff_append_eq.mpr cut.symm
        simp [found] at present
      simp [absent]
  | some other =>
      have cut := List.isPrefixOf?_eq_some_iff_append_eq.mp found
      simp only [Option.ite_none_right_eq_some, Option.some.injEq, ending]
      constructor
      · rintro ⟨ended, same⟩
        exact ⟨by rw [← same, cut], by rw [← same]; exact ended⟩
      · rintro ⟨start, ended⟩
        have same : other = rest := List.append_cancel_left (cut.trans start)
        exact ⟨by rw [same]; exact ended, same⟩

theorem afterTagWord?_eq_none_iff (content : Text) :
    afterTagWord? content = none ↔ ¬ OpensTags content := by
  rw [Option.eq_none_iff_forall_ne_some]
  simp only [ne_eq, afterTagWord?_eq_some_iff, OpensTags, not_exists]

structure IsCodeLine (line : Text) : Prop where
  shown : isBlank line = false
  noTab : '\t' ∉ line.takeWhile isIndent

/-- A line that prose may hold: something to show that is no tag line, behind less than a step
of spaces. -/
structure IsProseLine (line : Text) : Prop where
  shown : isBlank line = false
  shallow : ∃ count < indentStep, line.takeWhile isIndent = List.replicate count ' '
  untagged : ¬ OpensTags (line.dropWhile isIndent)

theorem isCodeLine_of_spaced {line content : Text} {count : Nat}
    (spaced : Spaced line content count) (shown : isBlank content = false) : IsCodeLine line := by
  refine ⟨by rw [spaced.isBlank_eq, shown], ?_⟩
  rw [spaced.takeWhile_eq]
  simp

theorem isProseLine_of_spaced {line content : Text} {count : Nat}
    (spaced : Spaced line content count) (shown : isBlank content = false)
    (shallow : count < indentStep) (untagged : afterTagWord? content = none) :
    IsProseLine line := by
  refine ⟨by rw [spaced.isBlank_eq, shown], ⟨count, shallow, spaced.takeWhile_eq⟩, ?_⟩
  rw [spaced.dropWhile_eq]
  exact (afterTagWord?_eq_none_iff content).mp untagged

theorem read_detab_cases (baseIndent : Nat) (line : Text) :
    Line.read baseIndent (detab line) = .blank ∨
      (∃ rest, Line.read baseIndent (detab line) = .tags rest) ∨
      (∃ text, Line.read baseIndent (detab line) = .code text ∧ IsCodeLine text) ∨
      (∃ text, Line.read baseIndent (detab line) = .prose text ∧ IsProseLine text) := by
  obtain ⟨count, spaced⟩ := exists_spaced_detab line
  cases shown : isBlank (line.dropWhile isIndent) with
  | true => exact .inl (spaced.read_blank baseIndent shown)
  | false =>
      by_cases deep : baseIndent + indentStep ≤ count
      · exact .inr (.inr (.inl ⟨_, spaced.read_code baseIndent shown deep,
          isCodeLine_of_spaced (spaced.drop _ deep) shown⟩))
      · have shallow : count < baseIndent + indentStep := by omega
        have step : 0 < indentStep := by decide
        cases tagged : afterTagWord? (line.dropWhile isIndent) with
        | some rest => exact .inr (.inl ⟨rest, spaced.read_tags baseIndent rest shown shallow tagged⟩)
        | none =>
            refine .inr (.inr (.inr ⟨_, spaced.read_prose baseIndent shown shallow tagged, ?_⟩))
            exact isProseLine_of_spaced (spaced.drop _ (Nat.min_le_left count baseIndent)) shown
              (by omega) tagged

/-! The lines of a part are read again as what they were. -/

theorem read_prose_line (line : Text) (prose : IsProseLine line) :
    Line.read 0 (detab line) = .prose line := by
  obtain ⟨count, shallow, indent⟩ := prose.shallow
  have spaced := spaced_of_noTab line (by simp [indent])
  have few : (line.takeWhile isIndent).length < 0 + indentStep := by
    rw [indent, List.length_replicate]
    omega
  have untagged := (afterTagWord?_eq_none_iff _).mpr prose.untagged
  have shown : isBlank (line.dropWhile isIndent) = false := spaced.isBlank_eq ▸ prose.shown
  rw [spaced.detab_eq, spaced.read_prose 0 shown few untagged]
  simp

theorem read_code_line (line : Text) (code : IsCodeLine line) :
    Line.read 0 (detab (List.replicate indentStep ' ' ++ line)) = .code line := by
  have inner := spaced_of_noTab line code.noTab
  have shown : isBlank (line.dropWhile isIndent) = false := inner.isBlank_eq ▸ code.shown
  have spaced : Spaced (List.replicate indentStep ' ' ++ line) (line.dropWhile isIndent)
      (indentStep + (line.takeWhile isIndent).length) := by
    refine ⟨?_, inner.start⟩
    rw [List.replicate_add, List.append_assoc, ← inner.cut]
  rw [spaced.detab_eq, spaced.read_code 0 shown (by omega)]
  simp

theorem read_tag_line (baseIndent : Nat) (rest : Text)
    (ending : ∀ character ∈ rest.head?, isSpace character = true) :
    Line.read baseIndent (detab (tagWord ++ rest)) = .tags rest := by
  have spaced : Spaced (tagWord ++ rest) (tagWord ++ rest) 0 := by
    refine ⟨by simp, ?_⟩
    intro character inside
    have first : character = '@' := by simpa [tagWord, eq_comm] using inside
    rw [first]
    rfl
  have shown : isBlank (tagWord ++ rest) = false := by
    have sign : isSpace '@' = false := by decide
    simp [tagWord, sign]
  have tagged := (afterTagWord?_eq_some_iff (tagWord ++ rest) rest).mpr ⟨rfl, ending⟩
  have shallow : 0 < baseIndent + indentStep := by
    rw [indentStep]
    omega
  rw [spaced.detab_eq, spaced.read_tags baseIndent rest shown shallow tagged]

end CommentFormat
