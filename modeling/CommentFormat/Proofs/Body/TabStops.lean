import CommentFormat.Proofs.Body.Margin
import Mathlib.Algebra.GroupWithZero.Nat

/-! Tab stops: how many columns the spaces and tabs in front of a line come to. -/

namespace CommentFormat

/-- A run of spaces and tabs: the number of spaces in front of each tab, and of those behind the
last one. -/
structure TabRun where
  stretches : List Nat
  last : Nat
deriving DecidableEq, Repr

namespace TabRun

def text (run : TabRun) : Text :=
  run.stretches.flatMap (fun spaces => List.replicate spaces ' ' ++ ['\t']) ++
    List.replicate run.last ' '

def columns (run : TabRun) : Nat :=
  (run.stretches.map fun spaces => indentStep * (spaces / indentStep + 1)).sum + run.last

@[simp] theorem text_nil (last : Nat) : text ⟨[], last⟩ = List.replicate last ' ' := rfl

@[simp] theorem text_cons (spaces : Nat) (more : List Nat) (last : Nat) :
    text ⟨spaces :: more, last⟩ = List.replicate spaces ' ' ++ '\t' :: text ⟨more, last⟩ := by
  simp [text]

@[simp] theorem columns_nil (last : Nat) : columns ⟨[], last⟩ = last := by
  simp [columns]

@[simp] theorem columns_cons (spaces : Nat) (more : List Nat) (last : Nat) :
    columns ⟨spaces :: more, last⟩ =
      indentStep * (spaces / indentStep + 1) + columns ⟨more, last⟩ := by
  simp [columns, Nat.add_assoc]

theorem tab_mem_text_iff (run : TabRun) : '\t' ∈ run.text ↔ run.stretches ≠ [] := by
  obtain ⟨stretches, last⟩ := run
  cases stretches <;> simp

/-! Every run of spaces and tabs is written in this way, and in no other. -/

theorem splitOn_text (run : TabRun) :
    (run.text.splitOn '\t').map List.length = run.stretches ++ [run.last] := by
  obtain ⟨stretches, last⟩ := run
  induction stretches with
  | nil => simp [List.splitOn_eq_singleton]
  | cons spaces more ih =>
      rw [text_cons, List.splitOn_append_cons_self, List.map_append, ih]
      simp [List.splitOn_eq_singleton]

theorem text_inj (run other : TabRun) : run.text = other.text ↔ run = other := by
  constructor
  · intro same
    have lengths : run.stretches ++ [run.last] = other.stretches ++ [other.last] := by
      rw [← splitOn_text, ← splitOn_text, same]
    obtain ⟨stretches, last⟩ := List.append_inj' lengths rfl
    cases run
    cases other
    simp_all
  · intro same
    rw [same]

theorem exists_text (text : Text) (indents : ∀ character ∈ text, isIndent character = true) :
    ∃ run : TabRun, text = run.text := by
  induction text with
  | nil => exact ⟨⟨[], 0⟩, rfl⟩
  | cons first rest ih =>
      obtain ⟨⟨stretches, last⟩, rfl⟩ := ih fun character inside =>
        indents character (List.mem_cons_of_mem first inside)
      have firstIndents := indents first (by simp)
      simp only [isIndent, Bool.or_eq_true, decide_eq_true_eq] at firstIndents
      rcases firstIndents with rfl | rfl
      · cases stretches with
        | nil => exact ⟨⟨[], last + 1⟩, by simp [List.replicate_succ]⟩
        | cons spaces more => exact ⟨⟨(spaces + 1) :: more, last⟩, by simp [List.replicate_succ]⟩
      · exact ⟨⟨0 :: stretches, last⟩, by simp⟩

/-! Replacing its tabs. -/

theorem detabFrom_text (run : TabRun) (rest : Text) (column : Nat) (stop : indentStep ∣ column)
    (ended : ∀ character ∈ rest.head?, isIndent character = false) :
    detabFrom column (run.text ++ rest) = List.replicate run.columns ' ' ++ rest := by
  obtain ⟨stretches, last⟩ := run
  induction stretches generalizing column with
  | nil =>
      have kept : detabFrom (column + last) rest = rest := by
        cases rest with
        | nil => rfl
        | cons first later =>
            have plain := ended first (by simp)
            simp only [isIndent, Bool.or_eq_false_iff, decide_eq_false_iff_not] at plain
            simp [detabFrom, plain.1, plain.2]
      rw [text_nil, columns_nil, detabFrom_replicate, kept]
  | cons spaces more ih =>
      let gap := indentStep - (column + spaces) % indentStep
      have reached : indentStep ∣ column + spaces + gap := by
        simp only [gap, indentStep] at stop ⊢
        omega
      have taken : spaces + gap = indentStep * (spaces / indentStep + 1) := by
        simp only [gap, indentStep] at stop ⊢
        omega
      have tab : detabFrom (column + spaces) ('\t' :: (text ⟨more, last⟩ ++ rest)) =
          List.replicate gap ' ' ++
            detabFrom (column + spaces + gap) (text ⟨more, last⟩ ++ rest) := by
        simp [detabFrom, gap]
      rw [text_cons, List.append_assoc, detabFrom_replicate, List.cons_append, tab,
        ih (column + spaces + gap) reached, columns_cons, ← taken]
      simp only [List.replicate_add, List.append_assoc]

theorem detab_eq_columns {line : Text} {run : TabRun}
    (indents : line.takeWhile isIndent = run.text) :
    detab line = List.replicate run.columns ' ' ++ line.dropWhile isIndent := by
  have cut : run.text ++ line.dropWhile isIndent = line := by
    rw [← indents, List.takeWhile_append_dropWhile]
  by_cases tab : '\t' ∈ run.text
  · have replaced := run.detabFrom_text (line.dropWhile isIndent) 0 (Nat.dvd_zero indentStep)
      (stop_dropWhile isIndent line)
    rw [cut] at replaced
    simpa [detab, detab?, indents, tab] using replaced
  · have same : detab line = line := by simp [detab, detab?, indents, tab]
    rw [tab_mem_text_iff, not_not] at tab
    have spaces : run.text = List.replicate run.columns ' ' := by simp [text, columns, tab]
    rw [same, ← spaces, cut]

end TabRun

/-- Up to its last tab the indentation of a line comes to whole steps, and behind it to as many
columns as there are spaces. A line without a tab there is kept as it is. -/
theorem detab_tabRun (line : Text) :
    ∃ run : TabRun,
      (∀ other : TabRun, line.takeWhile isIndent = other.text ↔ other = run) ∧
      detab line = List.replicate run.columns ' ' ++ line.dropWhile isIndent ∧
      detab (detab line) = detab line ∧
      '\t' ∉ (detab line).takeWhile isIndent ∧
      (detab? line = none ↔ run.stretches = []) := by
  obtain ⟨run, indents⟩ := TabRun.exists_text _ (of_mem_takeWhile isIndent line)
  obtain ⟨count, spaced⟩ := exists_spaced_detab line
  refine ⟨run, ?_, TabRun.detab_eq_columns indents, detab_detab line, ?_, ?_⟩
  · intro other
    rw [indents, TabRun.text_inj, eq_comm]
  · rw [spaced.takeWhile_eq]
    simp
  · have tab := run.tab_mem_text_iff
    simp [detab?, indents, tab]

example : detab "  \t \tx\ty".toList = "        x\ty".toList := by decide

end CommentFormat
