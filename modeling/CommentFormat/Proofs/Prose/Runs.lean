import CommentFormat.Proofs.Layout.Wrap
import CommentFormat.Proofs.Prose.Marks

/-! Runs: the lines that a run of prose is wrapped to, and what they are read as. -/

namespace CommentFormat

theorem itemsFrom_starts (item : Text) (rest : List Text) :
    ∃ first others, itemsFrom item rest = first :: others ∧ Continues first item ∧
      ∀ later ∈ others, ∃ word ∈ rest, mustFollow word = false ∧ Continues later word := by
  induction rest generalizing item with
  | nil => exact ⟨item, [], rfl, .inl rfl, by simp⟩
  | cons word rest ih =>
      rw [itemsFrom]
      split
      · obtain ⟨first, others, items, continues, starts⟩ := ih (item ++ ' ' :: word)
        refine ⟨first, others, items, continues.trans (.inr ⟨word, rfl⟩), ?_⟩
        intro later member
        obtain ⟨start, inRest, free, follows⟩ := starts later member
        exact ⟨start, List.mem_cons_of_mem word inRest, free, follows⟩
      · next free =>
          obtain ⟨first, others, items, continues, starts⟩ := ih word
          refine ⟨item, first :: others, by rw [items], .inl rfl, ?_⟩
          intro later member
          rcases List.mem_cons.mp member with same | behind
          · exact ⟨word, by simp, by simpa using free, same ▸ continues⟩
          · obtain ⟨start, inRest, startFree, follows⟩ := starts later behind
            exact ⟨start, List.mem_cons_of_mem word inRest, startFree, follows⟩

theorem itemsFrom_words (item : Text) (rest : List Text) (solid : ∀ word ∈ rest, IsWord word) :
    (itemsFrom item rest).flatMap words = words item ++ rest := by
  induction rest generalizing item with
  | nil => simp [itemsFrom]
  | cons word rest ih =>
      have wordItself := words_of_isWord word (solid word (by simp))
      have restSolid := fun other member => solid other (List.mem_cons_of_mem word member)
      rw [itemsFrom]
      split
      · have space : isSpace ' ' = true := by decide
        rw [ih _ restSolid, words_append_space item word ' ' space, wordItself]
        simp
      · rw [List.flatMap_cons, ih _ restSolid, wordItself]
        simp

theorem not_mem_itemsFrom (character : Char) (notSpace : character ≠ ' ') (item : Text)
    (rest : List Text) (itemLacks : character ∉ item) (restLack : ∀ word ∈ rest, character ∉ word) :
    ∀ other ∈ itemsFrom item rest, character ∉ other := by
  induction rest generalizing item with
  | nil => simpa [itemsFrom] using itemLacks
  | cons word rest ih =>
      have wordLacks := restLack word (by simp)
      have laterLack := fun other member => restLack other (List.mem_cons_of_mem word member)
      rw [itemsFrom]
      split
      · exact ih _ (by simp [itemLacks, notSpace, wordLacks]) laterLack
      · intro other member
        rcases List.mem_cons.mp member with same | behind
        · rwa [same]
        · exact ih word wordLacks laterLack other behind

theorem itemsFrom_append (mark : Text) (follows : mustFollow mark = true) (item : Text)
    (earlier later : List Text) :
    ∃ kept last more others, itemsFrom item earlier = kept ++ [last] ∧
      itemsFrom item (earlier ++ mark :: later) = kept ++ (last ++ ' ' :: more) :: others := by
  induction earlier generalizing item with
  | nil =>
      obtain ⟨first, others, items, continues, -⟩ := itemsFrom_starts (item ++ ' ' :: mark) later
      have grown : ∃ more, first = item ++ ' ' :: more := by
        rcases continues with same | ⟨more, cut⟩
        · exact ⟨mark, same⟩
        · exact ⟨mark ++ ' ' :: more, by simp [cut]⟩
      obtain ⟨more, cut⟩ := grown
      exact ⟨[], item, more, others, rfl, by simp [itemsFrom, follows, items, cut]⟩
  | cons word rest ih =>
      rw [List.cons_append, itemsFrom, itemsFrom]
      split
      · exact ih (item ++ ' ' :: word)
      · obtain ⟨kept, last, more, others, before, after⟩ := ih word
        exact ⟨item :: kept, last, more, others, by rw [before]; rfl, by rw [after]; rfl⟩

/-! The items of a run, by the opening of its first line. -/

theorem isWord_of_mem_run (tail : Text) (more : List Text) (other : Text)
    (member : other ∈ words tail ++ more.flatMap words) : IsWord other := by
  rcases List.mem_append.mp member with here | behind
  · exact isWord_of_mem_words tail other here
  · obtain ⟨source, -, inside⟩ := List.mem_flatMap.mp behind
    exact isWord_of_mem_words source other inside

/-- The run has a list mark alone on its first line: no item is left to stand beside it, or none
that fits. -/
def strandsMark (width : Nat) (lines : List Text) : Bool :=
  match runItems lines with
  | [] => false
  | item :: rest =>
      isListMark (trimStart item) &&
        rest.head?.all fun next => width < item.length + 1 + next.length

section Run

variable {line lead word tail : Text} (opening : Opening line lead word tail) (more : List Text)

include opening

theorem flatMap_words_eq :
    (line :: more).flatMap words = word :: (words tail ++ more.flatMap words) := by
  rw [List.flatMap_cons, opening.words_eq, List.cons_append]

theorem runItems_eq :
    runItems (line :: more) = itemsFrom (lead ++ word) (words tail ++ more.flatMap words) := by
  rw [runItems, flatMap_words_eq opening more, List.headD_cons, opening.leadingSpace_eq]

theorem runItems_ne_nil : runItems (line :: more) ≠ [] := by
  obtain ⟨first, others, items, -⟩ :=
    itemsFrom_starts (lead ++ word) (words tail ++ more.flatMap words)
  simp [runItems_eq opening more, items]

theorem Opening.short : Opening (lead ++ word) lead word [] :=
  ⟨by simp, opening.white, opening.isWord, by simp⟩

theorem runItems_words : (runItems (line :: more)).flatMap words = (line :: more).flatMap words := by
  rw [runItems_eq opening more, itemsFrom_words _ _ (isWord_of_mem_run tail more),
    flatMap_words_eq opening more, opening.short.words_eq]
  simp

theorem wrapItems_runItems (width offset : Nat) :
    ∃ first others, wrapItems width offset (runItems (line :: more)) = first :: others ∧
      (∃ rest, Opening first lead word rest ∧ Continues rest []) ∧
      ∀ later ∈ others, ∃ start rest, Opening later [] start rest ∧ mustFollow start = false := by
  obtain ⟨item, items, cut, itemContinues, itemStarts⟩ :=
    itemsFrom_starts (lead ++ word) (words tail ++ more.flatMap words)
  obtain ⟨first, others, wrapped, firstContinues, starts⟩ :=
    wrapFrom_starts width items item (offset + item.length)
  refine ⟨first, others, ?_, opening.short.continues (firstContinues.trans itemContinues), ?_⟩
  · rw [runItems_eq opening more, cut, wrapItems, wrapped]
  · intro later member
    obtain ⟨source, inItems, follows⟩ := starts later member
    obtain ⟨start, inRun, free, startFollows⟩ := itemStarts source inItems
    have startOpening := opening_of_isWord start (isWord_of_mem_run tail more start inRun)
    obtain ⟨rest, laterOpening, -⟩ := startOpening.continues (follows.trans startFollows)
    exact ⟨start, rest, laterOpening, free⟩

theorem runItems_wrapItems (width offset : Nat) (after : List Text) :
    runItems (wrapItems width offset (runItems (line :: more)) ++ after) =
      itemsFrom (lead ++ word) (words tail ++ more.flatMap words ++ after.flatMap words) := by
  obtain ⟨first, others, wrapped, ⟨rest, firstOpening, -⟩, -⟩ :=
    wrapItems_runItems opening more width offset
  have kept : (first :: others).flatMap words = (line :: more).flatMap words := by
    rw [← wrapped, wrapItems_words, runItems_words opening more]
  rw [flatMap_words_eq opening, flatMap_words_eq firstOpening, List.cons.injEq] at kept
  rw [wrapped, List.cons_append, runItems_eq firstOpening, List.flatMap_append,
    ← List.append_assoc, kept.2]

theorem runItems_wrapped (width offset : Nat) :
    runItems (wrapItems width offset (runItems (line :: more))) = runItems (line :: more) := by
  simpa [runItems_eq opening more] using runItems_wrapItems opening more width offset []

theorem not_mem_runItems (character : Char) (notSpace : character ≠ ' ')
    (lacks : ∀ source ∈ line :: more, character ∉ source) :
    ∀ item ∈ runItems (line :: more), character ∉ item := by
  have lineLacks := lacks line (by simp)
  rw [runItems_eq opening more]
  refine not_mem_itemsFrom character notSpace _ _ ?_ ?_
  · intro inside
    refine lineLacks ?_
    rw [opening.cut, ← List.append_assoc]
    exact List.mem_append_left tail inside
  · intro other member inside
    rcases List.mem_append.mp member with here | behind
    · have inTail := mem_of_mem_words tail other here character inside
      exact lineLacks (by simp [opening.cut, inTail])
    · obtain ⟨source, inMore, known⟩ := List.mem_flatMap.mp behind
      exact lacks source (List.mem_cons_of_mem line inMore)
        (mem_of_mem_words source other known character inside)

theorem continuesRun_iff_lone (apart : standsApart line = true) (plain : isHeading line = false)
    {first ending : Text} (firstOpening : Opening first lead word ending)
    (ends : Continues ending []) :
    continuesRun first = true ↔ isListMark word = true ∧ ending = [] := by
  constructor
  · intro continues
    have notApart : ¬ standsApart first = true := by
      simp [((continuesRun_iff first).mp continues).2.2]
    rw [firstOpening.standsApart_iff, not_or, not_or] at notApart
    obtain ⟨-, notQuote, notItem⟩ := notApart
    have marked : isListMark word = true := by
      rcases opening.standsApart_iff.mp apart with heading | quote | ⟨marked, -⟩
      · rw [← opening.isHeading_eq, plain] at heading
        contradiction
      · contradiction
      · exact marked
    refine ⟨marked, ?_⟩
    rcases ends with same | ⟨rest, spaced⟩
    · exact same
    · exact absurd ⟨marked, by simp [spaced]⟩ notItem
  · rintro ⟨marked, lone⟩
    exact firstOpening.continuesRun_of_lone marked lone

theorem continuesRun_first_iff (width : Nat) (apart : standsApart line = true)
    (plain : isHeading line = false) (first : Text) (others : List Text)
    (wrapped : wrapItems width 0 (runItems (line :: more)) = first :: others) :
    continuesRun first = true ↔ strandsMark width (line :: more) = true := by
  obtain ⟨item, items, cut, itemContinues, -⟩ :=
    itemsFrom_starts (lead ++ word) (words tail ++ more.flatMap words)
  obtain ⟨itemTail, itemOpening, itemEnds⟩ := opening.short.continues itemContinues
  have wrappedFrom : wrapFrom width item (0 + item.length) items = first :: others := by
    rw [← wrapped, runItems_eq opening more, cut, wrapItems]
  have alone := wrapFrom_alone_iff width _ item items first others wrappedFrom
  obtain ⟨start, behind, startCut, startContinues, -⟩ :=
    wrapFrom_starts width items item (0 + item.length)
  obtain ⟨startEq, -⟩ := List.cons.inj (startCut.symm.trans wrappedFrom)
  rw [startEq] at startContinues
  obtain ⟨firstTail, firstOpening, firstEnds⟩ := itemOpening.continues startContinues
  have strands : strandsMark width (line :: more) = true ↔
      isListMark (trimStart item) = true ∧ first = item := by
    rw [strandsMark, runItems_eq opening more, cut, alone]
    cases items <;> simp
  rw [strands, itemOpening.trimStart_eq,
    continuesRun_iff_lone opening apart plain firstOpening (firstEnds.trans itemEnds)]
  constructor
  · rintro ⟨marked, lone⟩
    have itemLone : itemTail = [] := by
      rcases firstEnds with same | ⟨rest, spaced⟩
      · rw [← same, lone]
      · simp [lone] at spaced
    refine ⟨by simpa [itemLone] using marked, ?_⟩
    rw [firstOpening.cut, itemOpening.cut, lone, itemLone]
  · rintro ⟨marked, same⟩
    have lone : itemTail = [] := by
      rcases itemEnds with empty | ⟨rest, spaced⟩
      · exact empty
      · have solid := (isWord_of_isListMark _ marked).solid ' ' (by simp [spaced])
        contradiction
    rw [lone, List.append_nil] at marked
    rw [firstOpening.cut, itemOpening.cut, lone, List.append_cancel_left_eq,
      List.append_cancel_left_eq] at same
    exact ⟨marked, same⟩

theorem wrapItems_joined_ne (width offset : Nat) (mark : Text) (follows : mustFollow mark = true)
    (joined : List Text) (later : List Text) (starts : joined.flatMap words = mark :: later)
    (after other : List Text) :
    wrapItems width offset (runItems (wrapItems width offset (runItems (line :: more)) ++ joined)) ++
        after ≠
      wrapItems width offset (runItems (line :: more)) ++ other := by
  obtain ⟨kept, last, grown, others, before, behind⟩ :=
    itemsFrom_append mark follows (lead ++ word) (words tail ++ more.flatMap words) later
  rw [runItems_wrapItems opening, runItems_eq opening more, starts, before, behind]
  exact wrapItems_grown_ne width offset kept last grown others after other

end Run

end CommentFormat
