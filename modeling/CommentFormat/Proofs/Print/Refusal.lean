import CommentFormat.Format
import CommentFormat.Proofs.Print.Narrow
import CommentFormat.Proofs.Print.Reread

/-! When reading and printing are refused. -/

namespace CommentFormat

/-! Where the text of a line starts, counted in bytes. -/

/-- The offset lies inside the text or at its end, between two characters. -/
def StartsAtByte (text : Text) (offset : Nat) (after : Text) : Prop :=
  ∃ before, before ++ after = text ∧ byteCount before = offset

theorem byteCount_cons (character : Char) (rest : Text) :
    byteCount (character :: rest) = character.utf8Size + byteCount rest := by
  have counted (text : Text) (start : Nat) :
      text.foldl (fun count character => count + character.utf8Size) start =
        start + byteCount text := by
    induction text generalizing start with
    | nil => rfl
    | cons first later ih =>
        rw [byteCount, List.foldl_cons, List.foldl_cons, ih, ih]
        omega
  rw [byteCount, List.foldl_cons, counted, Nat.zero_add]

theorem byteCount_append (first second : Text) :
    byteCount (first ++ second) = byteCount first + byteCount second := by
  induction first with
  | nil => simp [byteCount]
  | cons character rest ih =>
      rw [List.cons_append, byteCount_cons, byteCount_cons, ih]
      omega

theorem byteCount_spaces (text : Text) (spaces : ∀ character ∈ text, character = ' ') :
    byteCount text = text.length := by
  induction text with
  | nil => rfl
  | cons character rest ih =>
      have here : character.utf8Size = 1 := by
        rw [spaces character (by simp)]
        rfl
      rw [byteCount_cons, here, List.length_cons,
        ih fun other member => spaces other (List.mem_cons_of_mem character member)]
      omega

theorem startsAtByte_drop (line : Text) (skipped : Nat) (indented : skipped ≤ indentOf line) :
    StartsAtByte line skipped (line.drop skipped) := by
  have start : line.takeWhile (· = ' ') <+: line := List.takeWhile_prefix _
  have short : skipped ≤ line.length := Nat.le_trans indented start.length_le
  have inside : line.take skipped <+: line.takeWhile (· = ' ') := by
    apply List.prefix_of_prefix_length_le (List.take_prefix skipped line) start
    rw [List.length_take_of_le short]
    exact indented
  refine ⟨line.take skipped, List.take_append_drop skipped line, ?_⟩
  rw [byteCount_spaces, List.length_take_of_le short]
  intro character member
  simpa using of_mem_takeWhile _ _ _ (inside.subset member)

def Line.CutFrom (baseIndent : Nat) (line : Text) : Line → Prop
  | .blank => True
  | .tags rest => StartsAtByte line (indentOf line + byteCount tagWord) rest
  | .code text => StartsAtByte line (baseIndent + indentStep) text
  | .prose text => StartsAtByte line (min (indentOf line) baseIndent) text

theorem Line.read_cutFrom (baseIndent : Nat) (line : Text) :
    (Line.read baseIndent line).CutFrom baseIndent line := by
  unfold Line.read
  split
  · trivial
  · split
    · next deep => exact startsAtByte_drop line _ deep
    · split
      · next rest tagged =>
          obtain ⟨content, -⟩ := (afterTagWord?_eq_some_iff _ _).mp tagged
          obtain ⟨before, cut, bytes⟩ := startsAtByte_drop line (indentOf line) (Nat.le_refl _)
          refine ⟨before ++ tagWord, ?_, by rw [byteCount_append, bytes]⟩
          rw [List.append_assoc, ← content, cut]
      · exact startsAtByte_drop line _ (Nat.min_le_left _ _)

/-! Reading. -/

theorem parse?_eq_error_iff (kind : Kind) (baseIndent : Nat) (body : Text) (fault : Fault) :
    parse? kind baseIndent body = .error fault ↔
      fault = .columnOverflow ∧ columnLimit - 5 < baseIndent ∧
        ∃ line ∈ lines body, isBlank line = false := by
  have limit : columnLimit = 18446744073709551616 := rfl
  have step : indentStep = 4 := rfl
  rw [parse?]
  by_cases refused : columnLimit - 5 < baseIndent ∧ ∃ line ∈ lines body, isBlank line = false
  · rw [bodyLines?_error baseIndent body refused.2 (by omega), and_iff_left refused]
    change Except.error Fault.columnOverflow = Except.error fault ↔ _
    rw [Except.error.injEq, eq_comm]
  · have fits : ∀ line ∈ lines body, isBlank line = true ∨ baseIndent + indentStep < columnLimit := by
      intro line member
      by_cases blank : isBlank line = true
      · exact .inl blank
      · have small : ¬ columnLimit - 5 < baseIndent := fun beyond =>
          refused ⟨beyond, line, member, by simpa using blank⟩
        exact .inr (by omega)
    rw [bodyLines?_ok baseIndent body fits]
    constructor
    · intro failed
      cases failed
    · rintro ⟨-, beyond⟩
      contradiction

/-! Printing. -/

theorem Comment.print?_eq_error_iff {kind : Kind} (comment : Comment kind) (page : Page)
    (bounded : comment.Bounded) (fault : Fault) :
    comment.print? page = .error fault ↔
      fault = .newlineInText ∧ ∃ name ∈ comment.names, '\n' ∈ name := by
  rw [comment.print?_eq page bounded.volume, ← comment.breaksLine_iff page.width]
  by_cases broken : (comment.arrangement page.width).parts.any ArrangedPart.breaksLine = true
  · simp [broken, eq_comm]
  · simp [broken]

theorem length_bodyOf?_le (text body : Text) (stripped : bodyOf? text = some body) :
    body.length ≤ text.length := by
  obtain ⟨inner, cut, same⟩ := (bodyOf?_eq_some_iff text body).mp stripped
  have shorter := length_trim_le text
  have inside : body.length ≤ inner.length := by
    cases space : [' '].isPrefixOf? inner with
    | none => simp [same, space]
    | some rest =>
        have whole := List.isPrefixOf?_eq_some_iff_append_eq.mp space
        rw [same, space, ← whole]
        simp
  rw [cut, List.length_append, List.length_append] at shorter
  omega

theorem bodyParts_bounded (kind : Kind) (baseIndent : Nat) (body : Text)
    (small : body.length < columnLimit / 128) :
    (⟨bodyParts baseIndent body⟩ : Comment kind).Bounded := by
  have volume := partsVolume_le_partsExtent (bodyParts baseIndent body)
  have extents := partsExtent_bodyParts_le baseIndent body
  have limit : columnLimit = 18446744073709551616 := rfl
  rw [partsVolume] at volume
  constructor
  · simp only [Comment.textLength]
    omega
  · simp only [Comment.names]
    omega

/-- Printing is refused for a name that breaks its line and nothing else, and no other text of a
comment breaks one. Reading is refused if the column at which code starts cannot be kept and some
line is not blank. So what was read is never refused when it is printed. -/
theorem refused_iff (kind : Kind) (width : Nat) :
    (∀ comment : Comment kind,
      ((comment.arrangement width).doc.unbroken = false ↔ ∃ name ∈ comment.names, '\n' ∈ name) ∧
      (comment.Bounded → ∀ fault, comment.print? ⟨width⟩ = .error fault ↔
        fault = .newlineInText ∧ ∃ name ∈ comment.names, '\n' ∈ name)) ∧
    (∀ baseIndent body, ∀ fault, parse? kind baseIndent body = .error fault ↔
      fault = .columnOverflow ∧ columnLimit - 5 < baseIndent ∧
        ∃ line ∈ lines body, isBlank line = false) ∧
    (∀ baseIndent line, (Line.read baseIndent line).CutFrom baseIndent line) ∧
    ∀ baseIndent ≤ columnLimit - 5, ∀ text body, bodyOf? text = some body →
      ∃ parsed, parse? kind baseIndent body = .ok parsed ∧
        (parsed.comment.Bounded → formatOnce? kind baseIndent (.ok ⟨width⟩) text =
          .ok (.printed parsed (parsed.comment.printed width))) ∧
        (text.length < columnLimit / 128 → parsed.comment.Bounded) := by
  refine ⟨fun comment => ⟨?_, fun bounded => comment.print?_eq_error_iff ⟨width⟩ bounded⟩,
    parse?_eq_error_iff kind, Line.read_cutFrom, ?_⟩
  · rw [Arrangement.doc_unbroken, ← comment.breaksLine_iff width, Bool.not_eq_false']
  · intro baseIndent small text body stripped
    obtain ⟨parsed, read, comment⟩ := parse?_ok kind baseIndent body small
    refine ⟨parsed, read, fun bounded => ?_, fun short => ?_⟩
    · have unbroken : ∀ part ∈ parsed.comment.parts, part.Unbroken := by
        rw [comment]
        exact bodyParts_unbroken baseIndent body
      have printed := parsed.comment.print?_unbroken width unbroken bounded.volume
      simp [formatOnce?, stripped, read, printed, bind, Except.bind, pure, Except.pure]
    · rw [comment]
      have shorter := length_bodyOf?_le text body stripped
      exact bodyParts_bounded kind baseIndent body (by omega)

theorem refused_iff_extremes :
    let broken : Comment .doc := ⟨[.prose ['a', '\n', 'b'], .tags [['c'], ['d', '\n']]]⟩
    let text : Text := openLead ++ "@docs a,,b\n\t\tc".toList ++ closeMark
    broken.Bounded ∧ broken.print? ⟨0⟩ = .error .newlineInText ∧
      broken.print? ⟨columnLimit - 1⟩ = .error .newlineInText ∧
      parse? .doc (columnLimit - 4) ['a'] = .error .columnOverflow ∧
      bodyOf? text = some "@docs a,,b\n\t\tc".toList ∧
      ∃ parsed, parse? .doc (columnLimit - 5) "@docs a,,b\n\t\tc".toList = .ok parsed ∧
        parsed.comment.Bounded ∧
        formatOnce? .doc (columnLimit - 5) (.ok ⟨0⟩) text =
          .ok (.printed parsed (parsed.comment.printed 0)) := by
  intro broken text
  obtain ⟨narrowest, read, -, formatted⟩ := refused_iff .doc 0
  obtain ⟨widest, -⟩ := refused_iff .doc (columnLimit - 1)
  have bounded : broken.Bounded := ⟨by decide, by decide⟩
  have breaks : ∃ name ∈ broken.names, '\n' ∈ name := ⟨['d', '\n'], by decide⟩
  have stripped : bodyOf? text = some "@docs a,,b\n\t\tc".toList := by decide
  obtain ⟨parsed, known, whole, small⟩ := formatted (columnLimit - 5) (by decide) text _ stripped
  have parsedBounded := small (by decide)
  refine ⟨bounded, ?_, ?_, ?_, stripped, parsed, known, parsedBounded, whole parsedBounded⟩
  · exact ((narrowest broken).2 bounded _).mpr ⟨rfl, breaks⟩
  · exact ((widest broken).2 bounded _).mpr ⟨rfl, breaks⟩
  · exact (read (columnLimit - 4) ['a'] _).mpr ⟨rfl, by decide, by decide⟩

end CommentFormat
