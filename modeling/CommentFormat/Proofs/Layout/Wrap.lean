import CommentFormat.Layout.Recursive
import CommentFormat.Proofs.Text.Opening

/-! Wrapping: the lines that a fill of texts is laid out on. -/

namespace CommentFormat

def wrapFrom (width : Nat) (line : Text) (column : Nat) : List Text → List Text
  | [] => [line]
  | item :: rest =>
      if column + 1 + item.length ≤ width then
        wrapFrom width (line ++ ' ' :: item) (column + 1 + item.length) rest
      else line :: wrapFrom width item item.length rest

def wrapItems (width offset : Nat) : List Text → List Text
  | [] => [[]]
  | item :: rest => wrapFrom width item (offset + item.length) rest

def Continues (line item : Text) : Prop :=
  line = item ∨ ∃ more, line = item ++ ' ' :: more

theorem Continues.trans {first second third : Text} (outer : Continues first second)
    (inner : Continues second third) : Continues first third := by
  rcases outer with same | ⟨more, outerCut⟩
  · rwa [same]
  · rcases inner with same | ⟨between, innerCut⟩
    · exact .inr ⟨more, by rw [outerCut, same]⟩
    · exact .inr ⟨between ++ ' ' :: more, by simp [outerCut, innerCut]⟩

theorem Opening.continues {line item lead word tail : Text} (opening : Opening item lead word tail)
    (continues : Continues line item) :
    ∃ rest, Opening line lead word rest ∧ Continues rest tail := by
  rcases continues with same | ⟨more, cut⟩
  · exact ⟨tail, same ▸ opening, .inl rfl⟩
  · exact ⟨tail ++ ' ' :: more, cut ▸ opening.append_space more, .inr ⟨more, rfl⟩⟩

theorem wrapFrom_starts (width : Nat) (items : List Text) (line : Text) (column : Nat) :
    ∃ first rest, wrapFrom width line column items = first :: rest ∧ Continues first line ∧
      ∀ later ∈ rest, ∃ item ∈ items, Continues later item := by
  induction items generalizing line column with
  | nil => exact ⟨line, [], rfl, .inl rfl, by simp⟩
  | cons item rest ih =>
      rw [wrapFrom]
      split
      · obtain ⟨first, others, wrapped, continues, starts⟩ :=
          ih (line ++ ' ' :: item) (column + 1 + item.length)
        refine ⟨first, others, wrapped, continues.trans (.inr ⟨item, rfl⟩), ?_⟩
        intro later member
        obtain ⟨start, inRest, follows⟩ := starts later member
        exact ⟨start, List.mem_cons_of_mem item inRest, follows⟩
      · obtain ⟨first, others, wrapped, continues, starts⟩ := ih item item.length
        refine ⟨line, first :: others, by rw [wrapped], .inl rfl, ?_⟩
        intro later member
        rcases List.mem_cons.mp member with same | behind
        · exact ⟨item, by simp, same ▸ continues⟩
        · obtain ⟨start, inRest, follows⟩ := starts later behind
          exact ⟨start, List.mem_cons_of_mem item inRest, follows⟩

theorem wrapFrom_alone_iff (width column : Nat) (line : Text) (items : List Text) (first : Text)
    (others : List Text) (wrapped : wrapFrom width line column items = first :: others) :
    first = line ↔ ∀ next ∈ items.head?, width < column + 1 + next.length := by
  cases items with
  | nil =>
      rw [wrapFrom, List.cons.injEq] at wrapped
      simp [wrapped.1]
  | cons item rest =>
      rw [wrapFrom] at wrapped
      split at wrapped
      · next fits =>
          obtain ⟨start, behind, cut, continues, -⟩ :=
            wrapFrom_starts width rest (line ++ ' ' :: item) (column + 1 + item.length)
          rw [cut, List.cons.injEq] at wrapped
          have longer : line.length < first.length := by
            rw [← wrapped.1]
            rcases continues with same | ⟨more, grown⟩
            · simp [same]
            · simp [grown]
          constructor
          · intro same
            rw [same] at longer
            omega
          · intro tooLong
            have exceeds := tooLong item (by simp)
            omega
      · next exceeds =>
          rw [List.cons.injEq] at wrapped
          simp only [wrapped.1, List.head?_cons, Option.mem_some, forall_eq', true_iff]
          omega

theorem wrapFrom_words (width : Nat) (items : List Text) (line : Text) (column : Nat) :
    (wrapFrom width line column items).flatMap words = words line ++ items.flatMap words := by
  induction items generalizing line column with
  | nil => simp [wrapFrom]
  | cons item rest ih =>
      rw [wrapFrom]
      split
      · have space : isSpace ' ' = true := by decide
        rw [ih, words_append_space line item ' ' space, List.flatMap_cons, List.append_assoc]
      · rw [List.flatMap_cons, ih, List.flatMap_cons]

theorem wrapItems_words (width offset : Nat) (items : List Text) :
    (wrapItems width offset items).flatMap words = items.flatMap words := by
  cases items with
  | nil => rfl
  | cons item rest => rw [wrapItems, wrapFrom_words, List.flatMap_cons]

theorem not_mem_wrapFrom (character : Char) (notSpace : character ≠ ' ') (width : Nat)
    (items : List Text) (line : Text) (column : Nat) (lineLacks : character ∉ line)
    (itemsLack : ∀ item ∈ items, character ∉ item) :
    ∀ wrapped ∈ wrapFrom width line column items, character ∉ wrapped := by
  induction items generalizing line column with
  | nil => simpa [wrapFrom] using lineLacks
  | cons item rest ih =>
      have itemLacks := itemsLack item (by simp)
      have restLack := fun other member => itemsLack other (List.mem_cons_of_mem item member)
      rw [wrapFrom]
      split
      · exact ih (line ++ ' ' :: item) _ (by simp [lineLacks, notSpace, itemLacks]) restLack
      · intro wrapped member
        rcases List.mem_cons.mp member with same | behind
        · rwa [same]
        · exact ih item _ itemLacks restLack wrapped behind

theorem not_mem_wrapItems (character : Char) (notSpace : character ≠ ' ') (width offset : Nat)
    (items : List Text) (itemsLack : ∀ item ∈ items, character ∉ item) :
    ∀ wrapped ∈ wrapItems width offset items, character ∉ wrapped := by
  cases items with
  | nil => simp [wrapItems]
  | cons item rest =>
      exact not_mem_wrapFrom character notSpace width rest item _ (itemsLack item (by simp))
        fun other member => itemsLack other (List.mem_cons_of_mem item member)

/-! An item that grows at its end changes the lines, whatever comes behind them. -/

theorem wrapFrom_grown_line_ne (width column : Nat) (line more : Text) (items after other : List Text) :
    wrapFrom width (line ++ ' ' :: more) column items ++ after ≠ line :: other := by
  obtain ⟨first, rest, wrapped, continues, -⟩ :=
    wrapFrom_starts width items (line ++ ' ' :: more) column
  intro same
  rw [wrapped, List.cons_append, List.cons.injEq] at same
  have longer : line.length < first.length := by
    rcases continues with equal | ⟨behind, cut⟩
    · simp [equal]
    · simp [cut]
  rw [same.1] at longer
  exact Nat.lt_irrefl _ longer

theorem wrapFrom_grown_item_ne (width : Nat) (items : List Text) (line : Text) (column : Nat)
    (last more : Text) (others after other : List Text) :
    wrapFrom width line column (items ++ (last ++ ' ' :: more) :: others) ++ after ≠
      wrapFrom width line column (items ++ [last]) ++ other := by
  induction items generalizing line column with
  | nil =>
      simp only [List.nil_append, wrapFrom]
      by_cases grownFits : column + 1 + (last ++ ' ' :: more).length ≤ width
      · have fits : column + 1 + last.length ≤ width := by
          simp only [List.length_append, List.length_cons] at grownFits
          omega
        have grown : line ++ ' ' :: (last ++ ' ' :: more) = (line ++ ' ' :: last) ++ ' ' :: more := by
          simp
        rw [if_pos grownFits, if_pos fits, grown]
        exact wrapFrom_grown_line_ne width _ _ more others after other
      · rw [if_neg grownFits]
        by_cases fits : column + 1 + last.length ≤ width
        · rw [if_pos fits]
          intro same
          simp at same
        · rw [if_neg fits]
          intro same
          exact wrapFrom_grown_line_ne width _ last more others after other
            (List.cons.inj same).2
  | cons item rest ih =>
      simp only [List.cons_append, wrapFrom]
      split
      · exact ih _ _
      · intro same
        exact ih item item.length (List.cons.inj same).2

theorem wrapItems_grown_ne (width offset : Nat) (items : List Text) (last more : Text)
    (others after other : List Text) :
    wrapItems width offset (items ++ (last ++ ' ' :: more) :: others) ++ after ≠
      wrapItems width offset (items ++ [last]) ++ other := by
  cases items with
  | nil => exact wrapFrom_grown_line_ne width _ last more others after other
  | cons item rest => exact wrapFrom_grown_item_ne width rest item _ last more others after other

end CommentFormat
