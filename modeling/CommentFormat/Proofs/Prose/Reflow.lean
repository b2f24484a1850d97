import CommentFormat.Proofs.Prose.Passages

/-! Flowing prose twice: the lines stay as they are unless a run that follows another one strands
its list mark, which is then read as a word of the run before it. -/

namespace CommentFormat

def Passage.strands (width : Nat) : Passage → Passage → Bool
  | .run _, .run lines => strandsMark width lines
  | _, _ => false

/-- No run strands its list mark right below another run. -/
def MarksHold (width : Nat) (passages : List Passage) : Prop :=
  passages.IsChain fun first second => first.strands width second = false

instance (width : Nat) : DecidablePred (MarksHold width) := fun passages =>
  inferInstanceAs (Decidable (passages.IsChain fun first second =>
    first.strands width second = false))

def Passage.settled (width offset : Nat) : Passage → Passage
  | .blank => .blank
  | .run lines => .run (wrapItems width offset (runItems lines))
  | .heading line => .heading (trimEnd line)
  | .fenced lines => .fenced lines

theorem Opening.mustFollow_of_standsApart {line lead word tail : Text}
    (opening : Opening line lead word tail) (apart : standsApart line = true) :
    mustFollow word = true := by
  rcases opening.standsApart_iff.mp apart with heading | quote | ⟨marked, -⟩
  · simp [mustFollow, heading]
  · simp [mustFollow, quote]
  · simp only [isListMark, Bool.or_eq_true] at marked
    rcases marked with bullet | number
    · simp [mustFollow, bullet]
    · simp [mustFollow, number]

theorem gap_cases (later : List Text) :
    ((∀ line ∈ later, isBlank line = true) ∧ gapBefore later = [] ∧ gapLines later = []) ∨
      (∃ line rest, later = line :: rest ∧ isBlank line = true ∧
        (∃ other ∈ later, isBlank other = false) ∧ gapBefore later = [.blank] ∧
        gapLines later = [[]]) ∨
      ∃ line rest, later = line :: rest ∧ isBlank line = false ∧ gapBefore later = [] ∧
        gapLines later = [] := by
  by_cases shown : ∃ other ∈ later, isBlank other = false
  · obtain ⟨other, member, otherShown⟩ := shown
    obtain ⟨line, rest, rfl⟩ := List.exists_cons_of_ne_nil (List.ne_nil_of_mem member)
    have some : (line :: rest).all isBlank = false := by
      rw [List.all_eq_false]
      exact ⟨other, member, by simp [otherShown]⟩
    cases blank : isBlank line with
    | true =>
        refine .inr (.inl ⟨line, rest, rfl, blank, ⟨other, member, otherShown⟩, ?_⟩)
        simp [gapBefore, gapLines, some, blank]
    | false =>
        refine .inr (.inr ⟨line, rest, rfl, blank, ?_⟩)
        simp [gapBefore, gapLines, blank]
  · have blank : ∀ line ∈ later, isBlank line = true := by simpa using shown
    refine .inl ⟨blank, ?_⟩
    have all : later.all isBlank = true := List.all_eq_true.mpr blank
    simp [gapBefore, gapLines, all]

def linesAfter (width : Nat) (later : List Text) : List Text :=
  gapLines later ++ passageLines width 0 (passagesOf later)

theorem linesAfter_nil (width : Nat) : linesAfter width [] = [] := by
  simp [linesAfter, gapLines, passagesOf, passageLines]

theorem linesAfter_again (width : Nat) (later : List Text) :
    gapBefore (linesAfter width later) = gapBefore later ∧
      passagesOf (linesAfter width later) =
        passagesOf (passageLines width 0 (passagesOf later)) := by
  unfold linesAfter
  rcases gap_cases later with ⟨blank, gap, gapShown⟩ |
    ⟨line, rest, cut, blank, shown, gap, gapShown⟩ | ⟨line, rest, cut, shown, gap, gapShown⟩
  · rw [gap, gapShown, passagesOf_eq_nil later blank]
    exact ⟨rfl, rfl⟩
  · obtain ⟨first, others, laid, firstShown⟩ := passageLines_shown width 0 later shown
    rw [gap, gapShown, laid, List.singleton_append, passagesOf_blank [] _ rfl]
    exact ⟨by simp [gapBefore, firstShown], rfl⟩
  · obtain ⟨first, others, laid, firstShown⟩ :=
      passageLines_shown width 0 later ⟨line, by simp [cut], shown⟩
    rw [gap, gapShown, laid, List.nil_append]
    exact ⟨by simp [gapBefore, firstShown], rfl⟩

namespace Begins

variable {line : Text} {rest : List Text} {passage : Passage} {later : List Text}

theorem linesAt_settled (begins : Begins line rest passage later) (shown : isBlank line = false)
    (width offset : Nat) :
    (passage.settled width offset).linesAt width offset = passage.linesAt width offset := by
  cases begins with
  | unclosed fence within => rfl
  | closed fence within closes => rfl
  | heading unfenced heads =>
      rw [Passage.settled, Passage.linesAt, Passage.linesAt, trimEnd_trimEnd]
  | @run more _ unfenced plain continues ended =>
      obtain ⟨lead, word, tail, opening⟩ := exists_opening line shown
      rw [Passage.settled, Passage.linesAt, Passage.linesAt, runItems_wrapped opening more]

theorem doc_settled (begins : Begins line rest passage later) (shown : isBlank line = false)
    (width offset : Nat) : (passage.settled width offset).doc = passage.doc := by
  cases begins with
  | unclosed fence within => rfl
  | closed fence within closes => rfl
  | heading unfenced heads =>
      rw [Passage.settled, Passage.doc, Passage.doc, trimEnd_trimEnd]
  | @run more _ unfenced plain continues ended =>
      obtain ⟨lead, word, tail, opening⟩ := exists_opening line shown
      rw [Passage.settled, Passage.doc, Passage.doc, runItems_wrapped opening more]

theorem settled (begins : Begins line rest passage later) (shown : isBlank line = false)
    (width offset : Nat) (after : List Text) (nothing : later = [] → after = [])
    (ended : ∀ lines, passage = .run lines → ∀ next ∈ after.head?, continuesRun next = false)
    (first : Text) (others : List Text) (laid : passage.linesAt width offset = first :: others) :
    Begins first (others ++ after) (passage.settled width offset) after := by
  obtain ⟨lead, word, tail, opening⟩ := exists_opening line shown
  cases begins with
  | unclosed fence within =>
      obtain ⟨rfl, rfl⟩ := List.cons.inj laid
      rw [nothing rfl, List.append_nil]
      exact .unclosed fence within
  | @closed closing inner _ fence within closes =>
      obtain ⟨rfl, rfl⟩ := List.cons.inj laid
      have again : Begins line (inner ++ closing :: after) (.fenced (line :: inner ++ [closing]))
          after := .closed fence within closes
      simpa [Passage.settled] using again
  | heading unfenced heads =>
      obtain ⟨rfl, rfl⟩ := List.cons.inj laid
      refine .heading ?_ ?_
      · rw [opening.trimEnd.isFence_eq, ← opening.isFence_eq, unfenced]
      · rw [opening.trimEnd.isHeading_eq, ← opening.isHeading_eq, heads]
  | @run more _ unfenced plain continues _ =>
      obtain ⟨start, behind, wrapped, ⟨ending, startOpening, -⟩, starts⟩ :=
        wrapItems_runItems opening more width offset
      obtain ⟨rfl, rfl⟩ := List.cons.inj (wrapped.symm.trans laid)
      rw [Passage.settled, wrapped]
      refine .run ?_ ?_ ?_ (ended _ rfl)
      · rw [startOpening.isFence_eq, ← opening.isFence_eq, unfenced]
      · rw [startOpening.isHeading_eq, ← opening.isHeading_eq, plain]
      · intro other member
        obtain ⟨word, tail, otherOpening, free⟩ := starts other member
        exact otherOpening.continuesRun_of_mustFollow free

theorem continues_iff {lines : List Text} (begins : Begins line rest (.run lines) later)
    (width : Nat) :
    (∃ next ∈ (linesAfter width later).head?, continuesRun next = true) ↔
      ∃ second ∈ (gapBefore later ++ passagesOf later).head?,
        (Passage.run lines).strands width second = true := by
  have ended : ∀ next ∈ later.head?, continuesRun next = false := by
    cases begins with
    | run unfenced plain continues ended => exact ended
  unfold linesAfter
  rcases gap_cases later with ⟨blank, gap, gapShown⟩ | ⟨next, more, cut, blank, -, gap, gapShown⟩ |
    ⟨next, more, rfl, shown, gap, gapShown⟩
  · simp [gap, gapShown, passagesOf_eq_nil later blank, passageLines]
  · simp [gap, gapShown, Passage.strands, continuesRun]
  · have nextEnds := ended next (by simp)
    have second := begins_firstPassage next more
    generalize (firstPassage next more).1 = passage at second
    generalize (firstPassage next more).2 = behind at second
    rw [gap, gapShown, List.nil_append, List.nil_append, second.passageLines_eq shown,
      second.passagesOf_eq shown]
    cases second with
    | unclosed fence within => simp [Passage.linesAt, nextEnds, Passage.strands]
    | closed fence within closes => simp [Passage.linesAt, nextEnds, Passage.strands]
    | heading unfenced heads =>
        obtain ⟨lead, word, tail, opening⟩ := exists_opening next shown
        have trimmed : isHeading (trimEnd next) = true := by
          rw [opening.trimEnd.isHeading_eq, ← opening.isHeading_eq, heads]
        simp [Passage.linesAt, Passage.strands, continuesRun, standsApart, trimmed]
    | @run others _ unfenced plain continues _ =>
        obtain ⟨lead, word, tail, opening⟩ := exists_opening next shown
        have apart : standsApart next = true := by
          simpa [continuesRun, unfenced, shown] using nextEnds
        obtain ⟨first, wrapped, laid, -⟩ := wrapItems_runItems opening others width 0
        have stranded := continuesRun_first_iff opening others width apart plain first wrapped laid
        simpa [Passage.linesAt, laid, Passage.strands] using stranded

theorem mustFollow_of_after {lines : List Text} (begins : Begins line rest (.run lines) later)
    (width : Nat) (next : Text) (follows : next ∈ (linesAfter width later).head?)
    (continues : continuesRun next = true) :
    ∃ mark ending, words next = mark :: ending ∧ mustFollow mark = true := by
  have ended : ∀ source ∈ later.head?, continuesRun source = false := by
    cases begins with
    | run unfenced plain continues ended => exact ended
  unfold linesAfter at follows
  rcases gap_cases later with ⟨blank, -, gap⟩ | ⟨source, more, rfl, blank, -, -, gap⟩ |
    ⟨source, more, rfl, shown, -, gap⟩
  · simp [gap, passagesOf_eq_nil later blank, passageLines] at follows
  · have empty : next = [] := by simpa [gap, eq_comm] using follows
    simp [empty, continuesRun] at continues
  · obtain ⟨lead, word, tail, opening⟩ := exists_opening source shown
    have second := begins_firstPassage source more
    obtain ⟨first, others, ending, laid, firstOpening⟩ := second.linesAt_opens opening width 0
    have same : first = next := by
      simpa [gap, second.passageLines_eq shown, laid] using follows
    rw [same] at firstOpening
    refine ⟨word, words ending, firstOpening.words_eq, ?_⟩
    have sourceEnds := ended source (by simp)
    have unfenced : isFence source = false := by
      rw [opening.isFence_eq, ← firstOpening.isFence_eq]
      exact ((continuesRun_iff next).mp continues).2.1
    have apart : standsApart source = true := by
      simpa [continuesRun, unfenced, shown] using sourceEnds
    exact opening.mustFollow_of_standsApart apart

theorem joined_ne {lines : List Text} (begins : Begins line rest (.run lines) later)
    (shown : isBlank line = false) (width offset : Nat) (next : Text) (after : List Text)
    (continues : continuesRun next = true) (mark : Text) (ending : List Text)
    (nextWords : words next = mark :: ending) (follows : mustFollow mark = true) (first : Text)
    (others : List Text) (laid : wrapItems width offset (runItems lines) = first :: others) :
    passageLines width offset (passagesOf (first :: (others ++ next :: after))) ≠
      first :: (others ++ next :: after) := by
  obtain ⟨lead, word, tail, opening⟩ := exists_opening line shown
  cases begins with
  | @run more _ unfenced plain _ _ =>
      obtain ⟨start, behind, wrapped, ⟨startEnding, startOpening, -⟩, starts⟩ :=
        wrapItems_runItems opening more width offset
      obtain ⟨rfl, rfl⟩ := List.cons.inj (wrapped.symm.trans laid)
      have joinedWords : ((next :: after).takeWhile continuesRun).flatMap words =
          mark :: (ending ++ (after.takeWhile continuesRun).flatMap words) := by
        rw [List.takeWhile_cons_of_pos continues, List.flatMap_cons, nextWords, List.cons_append]
      have again : Begins start (behind ++ next :: after)
          (.run (start :: (behind ++ (next :: after).takeWhile continuesRun)))
          ((next :: after).dropWhile continuesRun) := by
        nth_rewrite 1 [← List.takeWhile_append_dropWhile (p := continuesRun) (l := next :: after)]
        rw [← List.append_assoc]
        refine .run ?_ ?_ ?_ (stop_dropWhile continuesRun _)
        · rw [startOpening.isFence_eq, ← opening.isFence_eq, unfenced]
        · rw [startOpening.isHeading_eq, ← opening.isHeading_eq, plain]
        · intro other member
          rcases List.mem_append.mp member with inRun | inJoined
          · obtain ⟨otherWord, otherTail, otherOpening, free⟩ := starts other inRun
            exact otherOpening.continuesRun_of_mustFollow free
          · exact of_mem_takeWhile continuesRun _ other inJoined
      rw [again.passageLines_eq startOpening.isBlank_eq, Passage.linesAt, ← List.cons_append,
        ← List.cons_append, ← wrapped]
      exact wrapItems_joined_ne opening more width offset mark follows _ _ joinedWords _ _

theorem strands_iff (begins : Begins line rest passage later) (width : Nat) :
    (∀ second ∈ (gapBefore later ++ passagesOf later).head?, passage.strands width second = false) ↔
      ∀ lines, passage = .run lines →
        ∀ next ∈ (linesAfter width later).head?, continuesRun next = false := by
  constructor
  · rintro holds lines rfl next follows
    by_contra continues
    obtain ⟨second, isSecond, strands⟩ :=
      (begins.continues_iff width).mp ⟨next, follows, by simpa using continues⟩
    rw [holds second isSecond] at strands
    contradiction
  · intro ended second isSecond
    cases passage with
    | run lines =>
        by_contra strands
        obtain ⟨next, follows, continues⟩ :=
          (begins.continues_iff width).mpr ⟨second, isSecond, by simpa using strands⟩
        rw [ended lines rfl next follows] at continues
        contradiction
    | _ => rfl

theorem passagesOf_again (begins : Begins line rest passage later) (shown : isBlank line = false)
    (width offset : Nat)
    (ended : ∀ lines, passage = .run lines →
      ∀ next ∈ (linesAfter width later).head?, continuesRun next = false) :
    passagesOf (passage.linesAt width offset ++ linesAfter width later) =
      passage.settled width offset :: gapBefore later ++
        passagesOf (passageLines width 0 (passagesOf later)) := by
  obtain ⟨first, others, laid, firstShown⟩ := begins.linesAt_shown shown width offset
  have nothing : later = [] → linesAfter width later = [] := by
    rintro rfl
    exact linesAfter_nil width
  have again := begins.settled shown width offset (linesAfter width later) nothing ended
    first others laid
  obtain ⟨sameGap, samePassages⟩ := linesAfter_again width later
  rw [laid, List.cons_append, again.passagesOf_eq firstShown, sameGap, samePassages]

theorem again_iff_of_ended (begins : Begins line rest passage later) (shown : isBlank line = false)
    (width offset : Nat)
    (ended : ∀ lines, passage = .run lines →
      ∀ next ∈ (linesAfter width later).head?, continuesRun next = false) :
    passageLines width offset
        (passagesOf (passage.linesAt width offset ++ linesAfter width later)) =
          passage.linesAt width offset ++ linesAfter width later ↔
      passageLines width 0 (passagesOf (passageLines width 0 (passagesOf later))) =
        passageLines width 0 (passagesOf later) := by
  rw [begins.passagesOf_again shown width offset ended, List.cons_append, passageLines,
    List.flatMap_append, flatMap_gapBefore, flatMap_linesAt, begins.linesAt_settled shown,
    linesAfter, List.append_cancel_left_eq, List.append_cancel_left_eq]

end Begins

theorem marksHold_cons_iff (width : Nat) (passage : Passage) (later : List Text) :
    MarksHold width (passage :: gapBefore later ++ passagesOf later) ↔
      (∀ second ∈ (gapBefore later ++ passagesOf later).head?,
        passage.strands width second = false) ∧ MarksHold width (passagesOf later) := by
  have behind : MarksHold width (gapBefore later ++ passagesOf later) ↔
      MarksHold width (passagesOf later) := by
    unfold MarksHold gapBefore
    split
    · rw [List.singleton_append, List.isChain_cons]
      simp [Passage.strands]
    · rfl
  rw [← behind]
  exact List.isChain_cons

/-- Prose that was flowed once stays as it is exactly if its marks hold. -/
theorem passageLines_again_iff (width : Nat) (lines : List Text) :
    ∀ offset, passageLines width offset
        (passagesOf (passageLines width offset (passagesOf lines))) =
          passageLines width offset (passagesOf lines) ↔
      MarksHold width (passagesOf lines) := by
  induction lines using passagesOf_induction with
  | nil => simp [passagesOf, passageLines, MarksHold]
  | blank line rest blank ih => simpa only [passagesOf_blank line rest blank] using ih
  | passage line rest passage later shown begins ih =>
      intro offset
      have once : passageLines width offset (passagesOf (line :: rest)) =
          passage.linesAt width offset ++ linesAfter width later :=
        begins.passageLines_eq shown width offset
      rw [begins.passagesOf_eq shown, marksHold_cons_iff, ← begins.passagesOf_eq shown, once,
        begins.strands_iff width]
      by_cases ended : ∀ lines, passage = .run lines →
          ∀ next ∈ (linesAfter width later).head?, continuesRun next = false
      · rw [begins.again_iff_of_ended shown width offset ended, ih 0]
        exact ⟨fun marksHold => ⟨ended, marksHold⟩, fun both => both.2⟩
      · -- A run goes on with the line behind it, so that both are wrapped as one.
        refine iff_of_false ?_ fun both => ended both.1
        push Not at ended
        obtain ⟨runLines, rfl, next, follows, continues⟩ := ended
        rw [ne_eq, Bool.not_eq_false] at continues
        obtain ⟨mark, ending, nextWords, markFollows⟩ :=
          begins.mustFollow_of_after width next follows continues
        obtain ⟨first, others, laid, -⟩ := begins.linesAt_shown shown width offset
        obtain ⟨after, cut⟩ := List.head?_eq_some_iff.mp follows
        rw [laid, cut, List.cons_append]
        exact begins.joined_ne shown width offset next after continues mark ending nextWords
          markFollows first others laid

theorem passageLines_docs (width : Nat) (lines : List Text) :
    ∀ offset, MarksHold width (passagesOf lines) →
      (passagesOf (passageLines width offset (passagesOf lines))).map Passage.doc =
        (passagesOf lines).map Passage.doc := by
  induction lines using passagesOf_induction with
  | nil => simp [passagesOf, passageLines]
  | blank line rest blank ih => simpa only [passagesOf_blank line rest blank] using ih
  | passage line rest passage later shown begins ih =>
      intro offset marksHold
      have once : passageLines width offset (passagesOf (line :: rest)) =
          passage.linesAt width offset ++ linesAfter width later :=
        begins.passageLines_eq shown width offset
      rw [begins.passagesOf_eq shown, marksHold_cons_iff] at marksHold
      have ended := (begins.strands_iff width).mp marksHold.1
      rw [once, begins.passagesOf_again shown width offset ended, begins.passagesOf_eq shown]
      simp [begins.doc_settled shown, ih 0 marksHold.2]

/-! Marks that stand alone. -/

theorem trim_of_isListMark (line : Text) (marked : isListMark (trimStart line) = true) :
    trim line = trimStart line := by
  have isWord := isWord_of_isListMark _ marked
  have whole := trimEnd_append_of_shown (trimStart line) [] fun character last =>
    isWord.solid character (List.mem_of_getLast? last)
  simpa [trim, trimEnd] using whole

theorem exists_mark_of_strands (width : Nat) (first second : Passage)
    (strands : first.strands width second = true) :
    ∃ line ∈ second.linesAt width 0, isListMark (trim line) = true := by
  cases first with
  | run before =>
      cases second with
      | run lines =>
          rw [Passage.strands, strandsMark] at strands
          cases items : runItems lines with
          | nil => simp [items] at strands
          | cons item rest =>
              simp only [items, Bool.and_eq_true] at strands
              obtain ⟨start, others, wrapped, -, -⟩ :=
                wrapFrom_starts width rest item (0 + item.length)
              have alone : start = item := by
                apply (wrapFrom_alone_iff width _ item rest start others wrapped).mpr
                intro next isNext
                have exceeds := strands.2
                rw [Option.mem_def.mp isNext] at exceeds
                simpa using exceeds
              refine ⟨item, ?_, ?_⟩
              · rw [Passage.linesAt, items, wrapItems, wrapped, alone]
                exact List.mem_cons_self
              · rw [trim_of_isListMark item strands.1, strands.1]
      | _ => contradiction
  | _ => contradiction

theorem marksHold_of_lines (width offset : Nat) (passages : List Passage)
    (plain : ∀ line ∈ passageLines width offset passages, isListMark (trim line) = false) :
    MarksHold width passages := by
  cases passages with
  | nil => exact .nil
  | cons passage rest =>
      have below : ∀ other ∈ rest, ∀ line ∈ other.linesAt width 0,
          isListMark (trim line) = false := by
        intro other member line inside
        apply plain
        rw [passageLines]
        exact List.mem_append_right _ (List.mem_flatMap.mpr ⟨other, member, inside⟩)
      clear plain
      induction rest generalizing passage with
      | nil => exact .singleton passage
      | cons next later ih =>
          have chain := ih next fun other member => below other (List.mem_cons_of_mem next member)
          refine .cons_cons ?_ chain
          by_contra strands
          obtain ⟨line, inside, marked⟩ :=
            exists_mark_of_strands width passage next (by simpa using strands)
          rw [below next (by simp) line inside] at marked
          contradiction

end CommentFormat
