import CommentFormat.Proofs.Body.NormalForm
import CommentFormat.Proofs.Prose.Cut
import CommentFormat.Proofs.Prose.Runs

/-! Passages: the lines that each of them is laid out on. -/

namespace CommentFormat

def Passage.source : Passage → List Text
  | .blank => [[]]
  | .run lines => lines
  | .heading line => [line]
  | .fenced lines => lines

def Passage.linesAt (width offset : Nat) : Passage → List Text
  | .blank => [[]]
  | .run lines => wrapItems width offset (runItems lines)
  | .heading line => [trimEnd line]
  | .fenced lines => lines

def passageLines (width offset : Nat) : List Passage → List Text
  | [] => []
  | passage :: rest =>
      passage.linesAt width offset ++ rest.flatMap (Passage.linesAt width 0)

theorem flatMap_linesAt (width : Nat) (passages : List Passage) :
    passages.flatMap (Passage.linesAt width 0) = passageLines width 0 passages := by
  cases passages <;> rfl

def gapLines (later : List Text) : List Text :=
  if later.head?.any isBlank && !later.all isBlank then [[]] else []

theorem flatMap_gapBefore (width : Nat) (later : List Text) :
    (gapBefore later).flatMap (Passage.linesAt width 0) = gapLines later := by
  unfold gapBefore gapLines
  split <;> rfl

namespace Begins

variable {line : Text} {rest : List Text} {passage : Passage} {later : List Text}

theorem passageLines_eq (begins : Begins line rest passage later) (shown : isBlank line = false)
    (width offset : Nat) :
    passageLines width offset (passagesOf (line :: rest)) =
      passage.linesAt width offset ++ (gapLines later ++ passageLines width 0 (passagesOf later)) := by
  rw [begins.passagesOf_eq shown, List.cons_append, passageLines, List.flatMap_append,
    flatMap_gapBefore, flatMap_linesAt]

theorem source_eq (begins : Begins line rest passage later) :
    passage.source ++ later = line :: rest := by
  cases begins <;> simp [Passage.source]

theorem linesAt_words (begins : Begins line rest passage later) (shown : isBlank line = false)
    (width offset : Nat) :
    (passage.linesAt width offset).flatMap words = passage.source.flatMap words := by
  cases begins with
  | unclosed fence within => rfl
  | closed fence within closes => rfl
  | heading unfenced heads => simp [Passage.linesAt, Passage.source, words_trimEnd]
  | @run more _ unfenced plain continues ended =>
      obtain ⟨lead, word, tail, opening⟩ := exists_opening line shown
      rw [Passage.linesAt, Passage.source, wrapItems_words, runItems_words opening more]

theorem linesAt_opens (begins : Begins line rest passage later) {lead word tail : Text}
    (opening : Opening line lead word tail) (width offset : Nat) :
    ∃ first others ending, passage.linesAt width offset = first :: others ∧
      Opening first lead word ending := by
  cases begins with
  | unclosed fence within => exact ⟨line, rest, tail, rfl, opening⟩
  | @closed closing inner _ fence within closes =>
      exact ⟨line, inner ++ [closing], tail, rfl, opening⟩
  | heading unfenced heads => exact ⟨trimEnd line, [], trimEnd tail, rfl, opening.trimEnd⟩
  | @run more _ unfenced plain continues ended =>
      obtain ⟨first, others, wrapped, ⟨ending, firstOpening, -⟩, -⟩ :=
        wrapItems_runItems opening more width offset
      exact ⟨first, others, ending, wrapped, firstOpening⟩

theorem linesAt_shown (begins : Begins line rest passage later) (shown : isBlank line = false)
    (width offset : Nat) :
    ∃ first others, passage.linesAt width offset = first :: others ∧ isBlank first = false := by
  obtain ⟨lead, word, tail, opening⟩ := exists_opening line shown
  obtain ⟨first, others, ending, cut, firstOpening⟩ := begins.linesAt_opens opening width offset
  exact ⟨first, others, cut, firstOpening.isBlank_eq⟩

theorem linesAt_each (begins : Begins line rest passage later) (shown : isBlank line = false)
    (prose : ∀ source ∈ line :: rest, source = [] ∨ IsProseLine source) (width offset : Nat) :
    ∀ other ∈ passage.linesAt width offset, other = [] ∨ IsProseLine other := by
  obtain ⟨lead, word, tail, opening⟩ := exists_opening line shown
  have lineProse : IsProseLine line := by
    rcases prose line (by simp) with empty | known
    · simp [empty] at shown
    · exact known
  have sameOpening (other ending : Text) (otherOpening : Opening other lead word ending) :
      IsProseLine other :=
    otherOpening.isProseLine_iff.mpr (opening.isProseLine_iff.mp lineProse)
  cases begins with
  | unclosed fence within => exact prose
  | closed fence within closes =>
      intro other member
      refine prose other ?_
      simp only [Passage.linesAt, List.cons_append, List.mem_cons, List.mem_append] at member ⊢
      tauto
  | heading unfenced heads =>
      intro other member
      rw [List.mem_singleton.mp member]
      exact .inr (sameOpening _ _ opening.trimEnd)
  | @run more _ unfenced plain continues ended =>
      obtain ⟨first, others, wrapped, ⟨ending, firstOpening, -⟩, starts⟩ :=
        wrapItems_runItems opening more width offset
      intro other member
      rw [Passage.linesAt, wrapped] at member
      rcases List.mem_cons.mp member with same | behind
      · exact .inr (same ▸ sameOpening first ending firstOpening)
      · obtain ⟨start, startEnding, otherOpening, free⟩ := starts other behind
        exact .inr (otherOpening.isProseLine_of_mustFollow free)

theorem linesAt_lacks (begins : Begins line rest passage later) (shown : isBlank line = false)
    (character : Char) (notSpace : character ≠ ' ')
    (lacks : ∀ source ∈ line :: rest, character ∉ source) (width offset : Nat) :
    ∀ other ∈ passage.linesAt width offset, character ∉ other := by
  cases begins with
  | unclosed fence within => exact lacks
  | closed fence within closes =>
      intro other member
      refine lacks other ?_
      simp only [Passage.linesAt, List.cons_append, List.mem_cons, List.mem_append] at member ⊢
      tauto
  | heading unfenced heads =>
      intro other member inside
      rw [List.mem_singleton.mp member] at inside
      exact lacks line (by simp) ((trimEnd_isPrefix line).subset inside)
  | @run more _ unfenced plain continues ended =>
      obtain ⟨lead, word, tail, opening⟩ := exists_opening line shown
      have sourceLacks : ∀ source ∈ line :: more, character ∉ source := by
        intro source member
        refine lacks source ?_
        simp only [List.mem_cons, List.mem_append] at member ⊢
        tauto
      exact not_mem_wrapItems character notSpace width offset _
        (not_mem_runItems opening more character notSpace sourceLacks)

theorem linesAt_last (begins : Begins line rest passage []) (shown : isBlank line = false)
    (ends : ∀ final ∈ (line :: rest).getLast?, isBlank final = false) (width offset : Nat) :
    ∀ final ∈ (passage.linesAt width offset).getLast?, isBlank final = false := by
  obtain ⟨lead, word, tail, opening⟩ := exists_opening line shown
  cases begins with
  | unclosed fence within => exact ends
  | closed fence within closes => simpa [Passage.linesAt] using ends
  | heading unfenced heads => simp [Passage.linesAt, opening.trimEnd.isBlank_eq]
  | @run more _ unfenced plain continues ended =>
      obtain ⟨first, others, wrapped, ⟨ending, firstOpening, -⟩, starts⟩ :=
        wrapItems_runItems opening more width offset
      intro final last
      rw [Passage.linesAt, wrapped] at last
      rcases List.mem_cons.mp (List.mem_of_getLast? last) with same | behind
      · rw [same, firstOpening.isBlank_eq]
      · obtain ⟨start, startEnding, finalOpening, -⟩ := starts final behind
        exact finalOpening.isBlank_eq

end Begins

/-! The lines of all passages. -/

theorem passageLines_words (width : Nat) (lines : List Text) :
    ∀ offset, (passageLines width offset (passagesOf lines)).flatMap words = lines.flatMap words := by
  induction lines using passagesOf_induction with
  | nil => simp [passagesOf, passageLines]
  | blank line rest blank ih =>
      intro offset
      rw [passagesOf_blank line rest blank, ih, List.flatMap_cons, words_of_isBlank line blank,
        List.nil_append]
  | passage line rest passage later shown begins ih =>
      intro offset
      have gap : (gapLines later).flatMap words = [] := by
        unfold gapLines
        split <;> rfl
      rw [begins.passageLines_eq shown, List.flatMap_append, List.flatMap_append, gap, ih,
        begins.linesAt_words shown, List.nil_append, ← List.flatMap_append, begins.source_eq]

theorem passageLines_forall (good : Text → Prop) (width : Nat) (empty : good [])
    (laid : ∀ line rest passage later offset, isBlank line = false →
      Begins line rest passage later → (∀ source ∈ line :: rest, good source) →
      ∀ other ∈ passage.linesAt width offset, good other)
    (lines : List Text) (sources : ∀ source ∈ lines, good source) :
    ∀ offset, ∀ other ∈ passageLines width offset (passagesOf lines), good other := by
  induction lines using passagesOf_induction with
  | nil => simp [passagesOf, passageLines]
  | blank line rest blank ih =>
      rw [passagesOf_blank line rest blank]
      exact ih fun source member => sources source (List.mem_cons_of_mem line member)
  | passage line rest passage later shown begins ih =>
      intro offset other member
      have restGood : ∀ source ∈ later, good source := by
        intro source inLater
        refine sources source ?_
        rw [← begins.source_eq]
        exact List.mem_append_right _ inLater
      rw [begins.passageLines_eq shown, List.mem_append, List.mem_append] at member
      rcases member with here | gap | behind
      · exact laid line rest passage later offset shown begins sources other here
      · have same : other = [] := by
          unfold gapLines at gap
          split at gap <;> simp_all
        rw [same]
        exact empty
      · exact ih restGood 0 other behind

theorem passageLines_each (width offset : Nat) (lines : List Text)
    (prose : ∀ line ∈ lines, line = [] ∨ IsProseLine line) :
    ∀ line ∈ passageLines width offset (passagesOf lines), line = [] ∨ IsProseLine line :=
  passageLines_forall (fun line => line = [] ∨ IsProseLine line) width (.inl rfl)
    (fun _ _ _ _ offset shown begins sources => begins.linesAt_each shown sources width offset)
    lines prose offset

theorem passageLines_lacks (width offset : Nat) (lines : List Text) (character : Char)
    (notSpace : character ≠ ' ') (lacks : ∀ line ∈ lines, character ∉ line) :
    ∀ line ∈ passageLines width offset (passagesOf lines), character ∉ line :=
  passageLines_forall (character ∉ ·) width (by simp)
    (fun _ _ _ _ offset shown begins sources =>
      begins.linesAt_lacks shown character notSpace sources width offset)
    lines lacks offset

theorem passageLines_shown (width offset : Nat) (lines : List Text)
    (shown : ∃ line ∈ lines, isBlank line = false) :
    ∃ first others, passageLines width offset (passagesOf lines) = first :: others ∧
      isBlank first = false := by
  induction lines using passagesOf_induction with
  | nil => simp at shown
  | blank line rest blank ih =>
      rw [passagesOf_blank line rest blank]
      refine ih ?_
      obtain ⟨other, member, otherShown⟩ := shown
      rcases List.mem_cons.mp member with same | behind
      · simp [same, blank] at otherShown
      · exact ⟨other, behind, otherShown⟩
  | passage line rest passage later lineShown begins ih =>
      obtain ⟨first, others, cut, firstShown⟩ := begins.linesAt_shown lineShown width offset
      rw [begins.passageLines_eq lineShown, cut]
      exact ⟨first, _, rfl, firstShown⟩

theorem passageLines_last (width : Nat) (lines : List Text)
    (ends : ∀ final ∈ lines.getLast?, isBlank final = false) :
    ∀ offset, ∀ final ∈ (passageLines width offset (passagesOf lines)).getLast?,
      isBlank final = false := by
  induction lines using passagesOf_induction with
  | nil => simp [passagesOf, passageLines]
  | blank line rest blank ih =>
      rw [passagesOf_blank line rest blank]
      refine ih fun final last => ends final ?_
      rw [List.getLast?_cons, Option.mem_def.mp last]
      rfl
  | passage line rest passage later shown begins ih =>
      intro offset
      rw [begins.passageLines_eq shown]
      cases later with
      | nil =>
          have nothing : passagesOf [] = [] := by rw [passagesOf]
          simpa [gapLines, nothing, passageLines] using begins.linesAt_last shown ends width offset
      | cons next more =>
          have laterEnds : ∀ final ∈ (next :: more).getLast?, isBlank final = false := by
            intro final last
            refine ends final ?_
            rw [← begins.source_eq, List.getLast?_append_of_ne_nil _ (by simp)]
            exact last
          have final := List.getLast?_eq_some_getLast (List.cons_ne_nil next more)
          obtain ⟨first, others, cut, -⟩ := passageLines_shown width 0 (next :: more)
            ⟨_, List.mem_of_getLast? final, laterEnds _ final⟩
          have behind := ih laterEnds 0
          rw [cut] at behind ⊢
          rwa [List.getLast?_append_of_ne_nil _ (by simp),
            List.getLast?_append_of_ne_nil _ (by simp)]

end CommentFormat
