import CommentFormat.Proofs.Prose.Passages

/-! Fenced blocks: those that a scan of the lines finds closed are passages of their own. -/

namespace CommentFormat

def opensFence (line : Text) : Bool :=
  isFence line && indentOf line < indentStep

/-- The closed fenced blocks of lines, behind the lines of a block that is still open. A line that
interrupts belongs to no block and leaves none open. -/
def closedFences (interrupts : Text → Bool) (opened : Option (List Text)) :
    List Text → List (List Text)
  | [] => []
  | line :: rest =>
      if interrupts line then closedFences interrupts none rest
      else
        match opened with
        | none => closedFences interrupts (if opensFence line then some [line] else none) rest
        | some held =>
            if isFence line then (held ++ [line]) :: closedFences interrupts none rest
            else closedFences interrupts (some (held ++ [line])) rest

variable (interrupts : Text → Bool)

theorem closedFences_inner (inner later : List Text) (opened : Option (List Text))
    (plain : ∀ line ∈ inner, interrupts line = false ∧ isFence line = false) :
    closedFences interrupts opened (inner ++ later) =
      closedFences interrupts (opened.map (· ++ inner)) later := by
  induction inner generalizing opened with
  | nil => cases opened <;> simp
  | cons line rest ih =>
      obtain ⟨stays, unfenced⟩ := plain line (by simp)
      have restPlain := fun other member => plain other (List.mem_cons_of_mem line member)
      cases opened with
      | none => simpa [closedFences, stays, opensFence, unfenced] using ih none restPlain
      | some held =>
          simpa [closedFences, stays, unfenced] using ih (some (held ++ [line])) restPlain

theorem closedFences_append_plain (lines blanks : List Text) (opened : Option (List Text))
    (plain : ∀ line ∈ blanks, interrupts line = false ∧ isFence line = false) :
    closedFences interrupts opened (lines ++ blanks) = closedFences interrupts opened lines := by
  induction lines generalizing opened with
  | nil =>
      have none := closedFences_inner interrupts blanks [] opened plain
      rw [List.append_nil] at none
      rw [List.nil_append, none]
      rfl
  | cons line rest ih => simp only [List.cons_append, closedFences, ih]

theorem closedFences_interrupted (held rest : List Text) (line : Text) (opened : Option (List Text))
    (stops : interrupts line = true) :
    closedFences interrupts opened (held ++ line :: rest) =
      closedFences interrupts opened held ++ closedFences interrupts none rest := by
  induction held generalizing opened with
  | nil => simp [closedFences, stops]
  | cons first others ih =>
      simp only [List.cons_append, closedFences, ih]
      split
      · rfl
      · split
        · rfl
        · split <;> rfl

theorem Begins.mem_closedFences {line : Text} {rest : List Text} {passage : Passage}
    {later : List Text} (begins : Begins line rest passage later)
    (stays : ∀ other ∈ line :: rest, interrupts other = false)
    (shallow : isFence line = true → opensFence line = true) (block : List Text)
    (member : block ∈ closedFences interrupts none (line :: rest)) :
    passage = .fenced block ∨ block ∈ closedFences interrupts none later := by
  have lineStays := stays line (by simp)
  cases begins with
  | unclosed fence within =>
      have none := closedFences_inner interrupts rest [] (some [line]) fun other inRest =>
        ⟨stays other (List.mem_cons_of_mem line inRest), within other inRest⟩
      rw [List.append_nil] at none
      simp [closedFences, lineStays, shallow fence, none] at member
  | @closed closing inner _ fence within closes =>
      have inside := closedFences_inner interrupts inner (closing :: later) (some [line])
        fun other inInner => ⟨stays other (by simp [inInner]), within other inInner⟩
      simp only [closedFences, lineStays, shallow fence, inside, stays closing (by simp), closes,
        Bool.false_eq_true, ↓reduceIte, Option.map_some, List.mem_cons] at member
      rcases member with same | further
      · exact .inl (by simp [same])
      · exact .inr further
  | heading unfenced heads =>
      have skipped := closedFences_inner interrupts [line] rest none
        (by simpa using ⟨lineStays, unfenced⟩)
      rw [List.singleton_append, Option.map_none] at skipped
      exact .inr (skipped ▸ member)
  | @run more _ unfenced plain continues ended =>
      have skipped := closedFences_inner interrupts (line :: more) later none (by
        intro other inRun
        refine ⟨stays other ?_, ?_⟩
        · rw [← List.cons_append]
          exact List.mem_append_left _ inRun
        · rcases List.mem_cons.mp inRun with same | inMore
          · rw [same, unfenced]
          · exact ((continuesRun_iff other).mp (continues other inMore)).2.1)
      rw [List.cons_append, Option.map_none] at skipped
      exact .inr (skipped ▸ member)

theorem fenced_mem_passagesOf (lines : List Text)
    (stays : ∀ line ∈ lines, interrupts line = false)
    (shallow : ∀ line ∈ lines, isFence line = true → opensFence line = true) :
    ∀ block ∈ closedFences interrupts none lines, Passage.fenced block ∈ passagesOf lines := by
  induction lines using passagesOf_induction with
  | nil => simp [closedFences]
  | blank line rest blank ih =>
      have unfenced : opensFence line = false := by
        simp [opensFence, isFence_of_isBlank line blank]
      rw [passagesOf_blank line rest blank, closedFences, stays line (by simp)]
      simpa [unfenced] using ih (fun other member => stays other (List.mem_cons_of_mem line member))
        fun other member => shallow other (List.mem_cons_of_mem line member)
  | passage line rest passage later shown begins ih =>
      have inLater : ∀ other ∈ later, other ∈ line :: rest := by
        intro other member
        rw [← begins.source_eq]
        exact List.mem_append_right _ member
      have behind := ih (fun other member => stays other (inLater other member))
        fun other member => shallow other (inLater other member)
      rw [begins.passagesOf_eq shown]
      intro block member
      rcases begins.mem_closedFences interrupts stays (shallow line (by simp)) block member with
        here | further
      · simp [here]
      · simp [behind block further]

end CommentFormat
