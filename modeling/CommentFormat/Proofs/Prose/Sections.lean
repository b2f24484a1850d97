import CommentFormat.Proofs.Prose.Passages

/-! Sections: the passages of a text together with the blank lines that stand above them. No line is
lost between a text and its passages but blank ones outside fenced blocks. -/

namespace CommentFormat

structure MarkedLine where
  fenced : Bool
  line : Text
deriving DecidableEq, Repr

/-- A fenced block goes from a fence to the next one, or to the end. -/
def markFences (opened : Bool) : List Text → List MarkedLine
  | [] => []
  | line :: rest => ⟨opened || isFence line, line⟩ :: markFences (opened ^^ isFence line) rest

def MarkedLine.isGap (marked : MarkedLine) : Bool :=
  !marked.fenced && isBlank marked.line

def keptLines (lines : List Text) : List Text :=
  ((markFences false lines).filter fun marked => !marked.isGap).map MarkedLine.line

def Passage.isFenced : Passage → Bool
  | .fenced _ => true
  | _ => false

def Passage.marked (passage : Passage) : List MarkedLine :=
  passage.source.map (.mk passage.isFenced)

/-- A passage and the blank lines right above it. -/
structure Section where
  above : List Text
  passage : Passage
deriving DecidableEq, Repr

namespace Section

def marked (part : Section) : List MarkedLine :=
  part.above.map (.mk false) ++ part.passage.marked

def shown (part : Section) : List Passage :=
  if part.above = [] then [part.passage] else [.blank, part.passage]

structure Proper (part : Section) : Prop where
  blank : ∀ line ∈ part.above, isBlank line = true
  kept : ∀ marked ∈ part.passage.marked, marked.isGap = false
  opens : ∃ first more, part.passage.source = first :: more ∧ isBlank first = false

theorem Proper.passage_ne_blank {part : Section} (proper : part.Proper) :
    part.passage ≠ .blank := by
  intro isBlank
  obtain ⟨first, more, source, shown⟩ := proper.opens
  simp_all [Passage.source]

end Section

def separated : List Section → List Passage
  | [] => []
  | first :: rest => first.passage :: rest.flatMap Section.shown

/-! Marks. -/

theorem map_line_markFences (opened : Bool) (lines : List Text) :
    (markFences opened lines).map MarkedLine.line = lines := by
  induction lines generalizing opened with
  | nil => rfl
  | cons line rest ih => rw [markFences, List.map_cons, ih]

theorem markFences_plain (opened : Bool) (inner later : List Text)
    (plain : ∀ line ∈ inner, isFence line = false) :
    markFences opened (inner ++ later) =
      inner.map (.mk opened) ++ markFences opened later := by
  induction inner with
  | nil => rfl
  | cons line rest ih =>
      have unfenced := plain line (by simp)
      have restMarked := ih fun other member => plain other (List.mem_cons_of_mem line member)
      simp [markFences, unfenced, restMarked]

theorem markFences_blank (line : Text) (rest : List Text) (blank : isBlank line = true) :
    markFences false (line :: rest) = ⟨false, line⟩ :: markFences false rest := by
  simp [markFences, isFence_of_isBlank line blank]

namespace Begins

variable {line : Text} {rest : List Text} {passage : Passage} {later : List Text}

theorem markFences_eq (begins : Begins line rest passage later) :
    markFences false (line :: rest) = passage.marked ++ markFences false later := by
  cases begins with
  | unclosed fence within =>
      have inside := markFences_plain true rest [] within
      rw [List.append_nil] at inside
      simp [markFences, fence, inside, Passage.marked, Passage.source, Passage.isFenced]
  | @closed closing inner _ fence within closes =>
      have inside := markFences_plain true inner (closing :: later) within
      simp [markFences, fence, closes, inside, Passage.marked, Passage.source, Passage.isFenced]
  | heading unfenced heads =>
      simp [markFences, unfenced, Passage.marked, Passage.source, Passage.isFenced]
  | @run more _ unfenced plain continues ended =>
      have goesOn := markFences_plain false more later fun other member =>
        ((continuesRun_iff other).mp (continues other member)).2.1
      simp [markFences, unfenced, goesOn, Passage.marked, Passage.source, Passage.isFenced]

theorem proper (begins : Begins line rest passage later) (shown : isBlank line = false) :
    Section.Proper ⟨[], passage⟩ := by
  refine ⟨by simp, ?_, ?_⟩
  · cases begins with
    | unclosed fence within => simp [Passage.marked, Passage.isFenced, MarkedLine.isGap]
    | closed fence within closes => simp [Passage.marked, Passage.isFenced, MarkedLine.isGap]
    | heading unfenced heads => simp [Passage.marked, Passage.source, MarkedLine.isGap, shown]
    | run unfenced plain continues ended =>
        have goesOn := fun other member => ((continuesRun_iff other).mp (continues other member)).1
        simpa [Passage.marked, Passage.source, Passage.isFenced, MarkedLine.isGap, shown]
          using goesOn
  · cases begins <;> exact ⟨line, _, rfl, shown⟩

theorem head?_source (begins : Begins line rest passage later) :
    passage.source.head? = some line := by
  cases begins <;> rfl

end Begins

/-! All sections of a text. -/

theorem map_line_marked (part : Section) :
    part.marked.map MarkedLine.line = part.above ++ part.passage.source := by
  simp [Section.marked, Passage.marked, Function.comp_def]

theorem gapBefore_append_separated (lines below : List Text) (sections : List Section)
    (cut : lines = sections.flatMap (fun part => part.above ++ part.passage.source) ++ below)
    (proper : ∀ part ∈ sections, part.Proper) (blank : ∀ line ∈ below, isBlank line = true) :
    gapBefore lines ++ separated sections = sections.flatMap Section.shown := by
  cases sections with
  | nil =>
      have all : lines.all isBlank = true := by simpa [cut] using blank
      simp [gapBefore, all, separated]
  | cons next more =>
      have nextProper := proper next (by simp)
      obtain ⟨first, others, source, firstShown⟩ := nextProper.opens
      have notAll : lines.all isBlank = false := by
        rw [List.all_eq_false]
        exact ⟨first, by simp [cut, source], by simp [firstShown]⟩
      cases above : next.above with
      | nil => simp [gapBefore, cut, above, source, firstShown, separated, Section.shown]
      | cons line others =>
          have lineBlank := nextProper.blank line (by simp [above])
          have head : lines.head? = some line := by simp [cut, above]
          simp [gapBefore, head, notAll, lineBlank, separated, Section.shown, above]

theorem exists_sections (lines : List Text) :
    ∃ (sections : List Section) (below : List Text),
      markFences false lines = sections.flatMap Section.marked ++ below.map (.mk false) ∧
      (∀ part ∈ sections, part.Proper) ∧ (∀ line ∈ below, isBlank line = true) ∧
      passagesOf lines = separated sections := by
  induction lines using passagesOf_induction with
  | nil => exact ⟨[], [], rfl, by simp, by simp, by simp [passagesOf, separated]⟩
  | blank line rest blank ih =>
      obtain ⟨sections, below, marked, proper, blankBelow, found⟩ := ih
      rw [passagesOf_blank line rest blank, found, markFences_blank line rest blank, marked]
      cases sections with
      | nil => exact ⟨[], line :: below, by simp, by simp, by simpa [blank] using blankBelow, rfl⟩
      | cons first more =>
          have firstProper := proper first (by simp)
          refine ⟨⟨line :: first.above, first.passage⟩ :: more, below, by simp [Section.marked], ?_,
            blankBelow, rfl⟩
          intro part member
          rcases List.mem_cons.mp member with rfl | inMore
          · refine ⟨?_, firstProper.kept, firstProper.opens⟩
            simpa [blank] using firstProper.blank
          · exact proper part (List.mem_cons_of_mem first inMore)
  | passage line rest passage later shown begins ih =>
      obtain ⟨sections, below, marked, proper, blankBelow, found⟩ := ih
      have cut : later =
          sections.flatMap (fun part => part.above ++ part.passage.source) ++ below := by
        rw [← map_line_markFences false later, marked]
        simp [List.map_flatMap, map_line_marked, Function.comp_def]
      refine ⟨⟨[], passage⟩ :: sections, below, ?_, ?_, blankBelow, ?_⟩
      · rw [begins.markFences_eq, marked]
        simp [Section.marked]
      · intro part member
        rcases List.mem_cons.mp member with rfl | inLater
        · exact begins.proper shown
        · exact proper part inLater
      · rw [begins.passagesOf_eq shown, found, List.cons_append,
          gapBefore_append_separated later below sections cut proper blankBelow, separated]

/-! What the sections say about the passages. -/

theorem Section.Proper.filter_marked {part : Section} (proper : part.Proper) :
    part.marked.filter (fun marked => !marked.isGap) = part.passage.marked := by
  have gap : (part.above.map (MarkedLine.mk false)).filter (fun marked => !marked.isGap) = [] := by
    simpa [MarkedLine.isGap] using proper.blank
  have kept : part.passage.marked.filter (fun marked => !marked.isGap) = part.passage.marked := by
    simpa using proper.kept
  rw [Section.marked, List.filter_append, gap, kept, List.nil_append]

theorem filter_separated (sections : List Section) (proper : ∀ part ∈ sections, part.Proper) :
    (separated sections).filter (· ≠ .blank) = sections.map Section.passage := by
  cases sections with
  | nil => rfl
  | cons first rest =>
      have firstShown := (proper first (by simp)).passage_ne_blank
      have each : ∀ part ∈ rest, part.shown.filter (· ≠ .blank) = [part.passage] := by
        intro part member
        have partShown := (proper part (List.mem_cons_of_mem first member)).passage_ne_blank
        by_cases none : part.above = [] <;> simp [Section.shown, none, partShown]
      rw [separated, List.filter_cons_of_pos (by simpa using firstShown), List.filter_flatMap,
        List.flatMap_congr each, ← List.map_eq_flatMap, List.map_cons]

theorem kept_passagesOf (lines : List Text) :
    ((passagesOf lines).filter (· ≠ .blank)).flatMap Passage.source = keptLines lines := by
  obtain ⟨sections, below, marked, proper, blankBelow, found⟩ := exists_sections lines
  have gone : (below.map (MarkedLine.mk false)).filter (fun marked => !marked.isGap) = [] := by
    simpa [MarkedLine.isGap] using blankBelow
  have kept := List.flatMap_congr fun part member => (proper part member).filter_marked
  rw [found, filter_separated sections proper, keptLines, marked, List.filter_append, gone,
    List.append_nil, List.filter_flatMap, kept, List.map_flatMap, List.flatMap_map]
  simp [Passage.marked, Function.comp_def]

theorem isChain_shown (upper : Passage) (upperShown : upper ≠ .blank) (sections : List Section)
    (proper : ∀ part ∈ sections, part.Proper) :
    (upper :: sections.flatMap Section.shown).IsChain
        (fun first second => first ≠ .blank ∨ second ≠ .blank) ∧
      (upper :: sections.flatMap Section.shown).getLast? ≠ some .blank := by
  induction sections generalizing upper with
  | nil => simpa using upperShown
  | cons next rest ih =>
      have nextShown := (proper next (by simp)).passage_ne_blank
      obtain ⟨chain, last⟩ := ih next.passage nextShown fun part member =>
        proper part (List.mem_cons_of_mem next member)
      rw [List.flatMap_cons]
      by_cases none : next.above = []
      · rw [Section.shown, if_pos none, List.singleton_append]
        exact ⟨.cons_cons (.inl upperShown) chain, by rwa [List.getLast?_cons_cons]⟩
      · rw [Section.shown, if_neg none]
        exact ⟨.cons_cons (.inl upperShown) (.cons_cons (.inr nextShown) chain),
          by simpa [List.getLast?_cons_cons] using last⟩

theorem blank_between (lines : List Text) :
    (passagesOf lines).head? ≠ some .blank ∧ (passagesOf lines).getLast? ≠ some .blank ∧
      (passagesOf lines).IsChain (fun upper lower => upper ≠ .blank ∨ lower ≠ .blank) := by
  obtain ⟨sections, below, -, proper, -, found⟩ := exists_sections lines
  rw [found]
  cases sections with
  | nil => simp [separated]
  | cons first rest =>
      have firstShown := (proper first (by simp)).passage_ne_blank
      obtain ⟨chain, last⟩ := isChain_shown first.passage firstShown rest fun part member =>
        proper part (List.mem_cons_of_mem first member)
      exact ⟨by simpa [separated] using firstShown, last, chain⟩

/-! Runs and fenced blocks. -/

def IsClosedBlock (block : List Text) : Prop :=
  ∃ opening inner closing, block = opening :: inner ++ [closing] ∧ isFence opening = true ∧
    (∀ line ∈ inner, isFence line = false) ∧ isFence closing = true

def IsUnclosedBlock (block : List Text) : Prop :=
  ∃ opening inner, block = opening :: inner ∧ isFence opening = true ∧
    ∀ line ∈ inner, isFence line = false

theorem run_continues (lines held : List Text) (member : .run held ∈ passagesOf lines) :
    ∀ line ∈ held.tail, isBlank line = false ∧ isFence line = false ∧ standsApart line = false := by
  rcases of_mem_passagesOf lines _ member with absurd | ⟨first, rest, later, shown, begins⟩
  · contradiction
  · cases begins with
    | run unfenced plain continues ended =>
        intro line inside
        exact (continuesRun_iff line).mp (continues line inside)

/-- A run is followed only by a passage whose first line does not go on with it. -/
def Passage.EndsBefore (upper lower : Passage) : Prop :=
  ∀ held, upper = .run held → ∀ line ∈ lower.source.head?, continuesRun line = false

theorem Begins.endsBefore {line : Text} {rest : List Text} {passage : Passage} {later : List Text}
    (begins : Begins line rest passage later) :
    ∀ next ∈ (gapBefore later ++ passagesOf later).head?, passage.EndsBefore next := by
  rintro next isNext held rfl first isFirst
  have ended : ∀ other ∈ later.head?, continuesRun other = false := by
    cases begins with
    | run unfenced plain continues ended => exact ended
  by_cases blank : later.all isBlank = true
  · have nothing := passagesOf_eq_nil later (List.all_eq_true.mp blank)
    simp [gapBefore, blank, nothing] at isNext
  · obtain ⟨other, more, rfl⟩ : ∃ other more, later = other :: more :=
      List.exists_cons_of_ne_nil (by rintro rfl; simp at blank)
    cases otherBlank : isBlank other with
    | true =>
        obtain rfl : .blank = next := by simpa [gapBefore, blank, otherBlank] using isNext
        obtain rfl : [] = first := by simpa [Passage.source] using isFirst
        rfl
    | false =>
        have follows := begins_firstPassage other more
        obtain rfl : (firstPassage other more).1 = next := by
          simpa [gapBefore, otherBlank, follows.passagesOf_eq otherBlank] using isNext
        obtain rfl : other = first := by simpa [follows.head?_source] using isFirst
        exact ended other (by simp)

theorem runs_ended (lines : List Text) : (passagesOf lines).IsChain Passage.EndsBefore := by
  induction lines using passagesOf_induction with
  | nil => simp [passagesOf]
  | blank line rest blank ih => rwa [passagesOf_blank line rest blank]
  | passage line rest passage later shown begins ih =>
      rw [begins.passagesOf_eq shown, List.cons_append]
      refine List.IsChain.cons ?_ begins.endsBefore
      unfold gapBefore
      split
      · exact ih.cons (by simp [Passage.EndsBefore])
      · exact ih

theorem fenced_bounded (lines block : List Text) (member : .fenced block ∈ passagesOf lines) :
    IsClosedBlock block ∨ IsUnclosedBlock block := by
  rcases of_mem_passagesOf lines _ member with absurd | ⟨first, rest, later, shown, begins⟩
  · contradiction
  · cases begins with
    | unclosed fence within => exact .inr ⟨first, rest, rfl, fence, within⟩
    | closed fence within closes => exact .inl ⟨first, _, _, rfl, fence, within, closes⟩

theorem fenced_not_mem_gapBefore (block later : List Text) : .fenced block ∉ gapBefore later := by
  unfold gapBefore
  split <;> simp

theorem fenced_closed (lines : List Text) :
    ∀ block, .fenced block ∈ (passagesOf lines).dropLast → IsClosedBlock block := by
  induction lines using passagesOf_induction with
  | nil => simp [passagesOf]
  | blank line rest blank ih => rwa [passagesOf_blank line rest blank]
  | passage line rest passage later shown begins ih =>
      intro block member
      rw [begins.passagesOf_eq shown, List.cons_append] at member
      by_cases last : gapBefore later ++ passagesOf later = []
      · simp [last] at member
      · rw [List.dropLast_cons_of_ne_nil last, List.mem_cons] at member
        rcases member with rfl | behind
        · cases begins with
          | unclosed fence within => simp [gapBefore, passagesOf] at last
          | closed fence within closes => exact ⟨line, _, _, rfl, fence, within, closes⟩
        · by_cases none : passagesOf later = []
          · rw [none, List.append_nil] at behind
            exact absurd (List.dropLast_subset _ behind) (fenced_not_mem_gapBefore block later)
          · rw [List.dropLast_append_of_ne_nil none, List.mem_append] at behind
            exact ih block (behind.resolve_left (fenced_not_mem_gapBefore block later))

/-- The passages of a text are its sections: no line is lost but the blank ones outside fenced
blocks, which show as one blank between two passages and nowhere else. -/
theorem passages_sections (text : Text) :
    let found := passages text
    (found.filter (· ≠ .blank)).flatMap Passage.source = keptLines (lines text) ∧
    (∃ (sections : List Section) (below : List Text),
      markFences false (lines text) = sections.flatMap Section.marked ++ below.map (.mk false) ∧
      (∀ part ∈ sections, part.Proper) ∧ (∀ line ∈ below, isBlank line = true) ∧
      found = separated sections) ∧
    found.head? ≠ some .blank ∧ found.getLast? ≠ some .blank ∧
    found.IsChain (fun upper lower => upper ≠ .blank ∨ lower ≠ .blank) ∧
    (∀ held, .run held ∈ found → ∀ line ∈ held.tail,
      isBlank line = false ∧ isFence line = false ∧ standsApart line = false) ∧
    found.IsChain Passage.EndsBefore ∧
    (∀ block, .fenced block ∈ found → IsClosedBlock block ∨ IsUnclosedBlock block) ∧
    ∀ block, .fenced block ∈ found.dropLast → IsClosedBlock block := by
  intro found
  rw [show found = passagesOf (lines text) from passages_eq text]
  obtain ⟨notFirst, notLast, notTwice⟩ := blank_between (lines text)
  exact ⟨kept_passagesOf (lines text), exists_sections (lines text), notFirst, notLast, notTwice,
    run_continues (lines text), runs_ended (lines text), fenced_bounded (lines text),
    fenced_closed (lines text)⟩

end CommentFormat
