import CommentFormat.Proofs.Print.Idempotence
import CommentFormat.Proofs.Print.Narrow
import CommentFormat.Proofs.Print.Separate

/-! Flowed prose: its words are those of the text, a line that was wrapped is read as prose that
goes on, and flowing the text again makes no difference unless a list mark stands alone. -/

namespace CommentFormat

/-! Words. -/

theorem flowProse_words (text : Text) (width : Nat) :
    words (written ((flowProse text).lay width).strokes) = words text ∧
      (text.length + 1 < columnLimit →
        (flowProse text).render? ⟨width⟩ = .ok (written ((flowProse text).lay width).strokes)) := by
  constructor
  · rw [← Doc.layAt_zero, flowProse_layAt, words_joinLines, passages_eq, passageLines_words,
      words_lines]
  · exact flowProse_render? text width

theorem flowProse_words_unclosed :
    ∃ flowed,
      (flowProse "a\r\n b\t# c\r\n\r\n# d \n\x60\x60\x60\n e\r".toList).render? ⟨2⟩ = .ok flowed ∧
        words flowed = ["a", "b", "#", "c", "#", "d", "\x60\x60\x60", "e"].map String.toList := by
  obtain ⟨kept, rendered⟩ :=
    flowProse_words "a\r\n b\t# c\r\n\r\n# d \n\x60\x60\x60\n e\r".toList 2
  exact ⟨_, rendered (by decide), kept.trans (by decide)⟩

/-! Where lines are wrapped. -/

/-- A line that starts with a word, is read as prose and goes on with the run above it. -/
structure GoesOn (line : Text) : Prop where
  shown : isBlank line = false
  flush : trimStart line = line
  prose : Line.read 0 line = .prose line
  joined : standsApart line = false
  unfenced : isFence line = false

theorem Opening.goesOn {line word tail : Text} (opening : Opening line [] word tail)
    (free : mustFollow word = false) : GoesOn line := by
  obtain ⟨shown, unfenced, joined⟩ :=
    (continuesRun_iff line).mp (opening.continuesRun_of_mustFollow free)
  refine ⟨shown, ?_, ?_, joined, unfenced⟩
  · rw [opening.trimStart_eq, opening.cut, List.nil_append]
  · have noTab : '\t' ∉ line.takeWhile isIndent := by
      rw [opening.indent_eq.1]
      simp
    have read := read_prose_line line (opening.isProseLine_of_mustFollow free)
    rwa [(spaced_of_noTab line noTab).detab_eq] at read

theorem Passage.doc_layAt (passage : Passage) (width column : Nat) :
    written (passage.doc.layAt width column).strokes =
      joinLines (passage.linesAt width column) := by
  rw [Doc.written_layAt, Passage.doc_writes width _ column (startLine_at width column)]

theorem splitOn_run (lines source : List Text) (member : .run source ∈ passagesOf lines)
    (single : ∀ line ∈ lines, '\n' ∉ line) (width column : Nat) :
    (joinLines (wrapItems width column (runItems source))).splitOn '\n' =
      wrapItems width column (runItems source) := by
  have unbroken := passagesOf_unbroken lines single (.run source) member
  have items : ∀ item ∈ runItems source, '\n' ∉ item := by
    simpa [Passage.doc, Doc.words, Doc.unbroken, unbrokenAll_iff] using unbroken
  apply splitOn_joinLines
  · exact passagesOf_linesAt_ne_nil lines (.run source) member width column
  · exact not_mem_wrapItems '\n' (by decide) width column (runItems source) items

/-- From every column prose is laid out passage by passage. Every line of a run but the first is
prose that goes on with the run: no line break inside of it makes a line of tags or code, a fence, a
heading, a quote or a list item. -/
theorem flowProse_wraps (text : Text) (width column : Nat) :
    written ((flowProse text).layAt width column).strokes =
        joinLines (mapFrom (fun start passage => written (passage.doc.layAt width start).strokes)
          column (passages text)) ∧
      ∀ source, .run source ∈ passages text → ∀ start,
        ∀ line ∈ ((written ((Passage.run source).doc.layAt width start).strokes).splitOn '\n').tail,
          GoesOn line := by
  constructor
  · rw [flowProse_layAt, passages_eq, joinLines_passageLines]
    simp only [Passage.doc_layAt]
  · intro source member start
    rw [passages_eq] at member
    rw [Passage.doc_layAt, Passage.linesAt,
      splitOn_run (lines text) source member (newline_not_mem_lines text)]
    rcases of_mem_passagesOf (lines text) _ member with blank | ⟨line, rest, later, shown, begins⟩
    · contradiction
    · obtain ⟨lead, word, tail, opening⟩ := exists_opening line shown
      cases begins with
      | @run more _ unfenced plain continues ended =>
          obtain ⟨first, others, wrapped, -, starts⟩ :=
            wrapItems_runItems opening more width start
          rw [wrapped, List.tail_cons]
          intro other inOthers
          obtain ⟨begun, ending, otherOpening, free⟩ := starts other inOthers
          exact otherOpening.goesOn free

theorem flowProse_wraps_marks :
    .run ["a # b 1.".toList, "c".toList] ∈ passages "a # b 1.\nc".toList ∧
      GoesOn "b 1.".toList ∧ GoesOn "c".toList := by
  have member : .run ["a # b 1.".toList, "c".toList] ∈ passages "a # b 1.\nc".toList := by
    decide +kernel
  have each := (flowProse_wraps "a # b 1.\nc".toList 2 0).2 _ member 0
  have laid : (Passage.run ["a # b 1.".toList, "c".toList]).linesAt 2 0 =
      ["a #".toList, "b 1.".toList, "c".toList] := by
    decide
  rw [Passage.doc_layAt, laid, splitOn_joinLines _ (by simp) (by decide), List.tail_cons] at each
  exact ⟨member, each _ (by simp), each _ (by simp)⟩

/-! Flowing again, at whatever width. -/

/-- Prose that was read from a body and flowed at some width is the same document as before, and
so looks the same at every other width, unless a list mark stands alone on a line of it. -/
theorem flowProse_flowed (kind : Kind) (body : Text) (noReturn : '\r' ∉ body) :
    ∃ parsed, parse? kind 0 body = .ok parsed ∧
      ∀ text, .prose text ∈ parsed.comment.parts → ∀ width,
        let flowed := written ((flowProse text).lay width).strokes
        (text.length + 1 < columnLimit → (flowProse text).render? ⟨width⟩ = .ok flowed) ∧
          ((∀ line ∈ lines flowed, isListMark (trim line) = false) →
            flowProse flowed = flowProse text ∧
              ∀ other, (flowProse flowed).render? ⟨other⟩ = (flowProse text).render? ⟨other⟩) := by
  obtain ⟨parsed, read, comment⟩ := parse?_ok kind 0 body (by omega)
  have ended : ReturnsEndLines body := by
    intro before after found
    exact absurd (by simp [found]) noReturn
  refine ⟨parsed, read, ?_⟩
  intro text member width
  have legible : (Part.prose text).Legible := by
    rw [comment] at member
    exact (bodyParts_legible 0 body ended).each _ member
  dsimp only
  refine ⟨flowProse_render? text width, ?_⟩
  rw [← Doc.layAt_zero, flowProse_layAt, lines_flowed text legible]
  intro plain
  have marksHold := marksHold_of_lines width 0 (passages text) plain
  rw [passages_eq] at marksHold
  have same : flowProse (joinLines (passageLines width 0 (passages text))) = flowProse text := by
    rw [flowProse, passages_eq, lines_flowed text legible, passages_eq,
      passageLines_docs width (lines text) 0 marksHold, ← passages_eq, flowProse]
  exact ⟨same, fun other => by rw [same]⟩

theorem flowProse_flowed_narrow :
    flowProse " ab\ncd\n- e\nff\n\n# g".toList =
      flowProse " ab cd\n- e ff\n\n\n# g  ".toList := by
  obtain ⟨parsed, read, each⟩ :=
    flowProse_flowed .doc " ab cd\n- e ff\n\n\n# g  ".toList (by decide)
  obtain ⟨other, again, comment⟩ :=
    parse?_ok .doc 0 " ab cd\n- e ff\n\n\n# g  ".toList (by decide)
  have known : other = parsed := Except.ok.inj (again.symm.trans read)
  have member : .prose " ab cd\n- e ff\n\n\n# g  ".toList ∈ parsed.comment.parts := by
    rw [← known, comment]
    decide
  have laid : written ((flowProse " ab cd\n- e ff\n\n\n# g  ".toList).lay 4).strokes =
      " ab\ncd\n- e\nff\n\n# g".toList := by
    rw [← Doc.layAt_zero, flowProse_layAt]
    decide +kernel
  obtain ⟨-, same⟩ := each _ member 4
  rw [laid] at same
  exact (same (by decide)).1

end CommentFormat
