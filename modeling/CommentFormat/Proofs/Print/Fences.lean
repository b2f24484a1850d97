import CommentFormat.Proofs.Print.Reach
import CommentFormat.Proofs.Print.Reread
import CommentFormat.Proofs.Prose.Fences
import Mathlib.Data.List.Infix

/-! Fenced blocks in a printed comment: a block that is closed before a line of code or of tags
comes is printed as it stands. -/

namespace CommentFormat

/-- A line that is read as code or as tags, whatever fence stands above it. -/
def leavesProse (line : Text) : Bool :=
  match readLine line with
  | .blank => false
  | .prose _ => false
  | .code _ => true
  | .tags _ => true

def IsPlainLine (line : Text) : Prop :=
  line = [] ∨ (readLine line = .prose line ∧ IsProseLine line) ∨ leavesProse line = true

theorem isPlainLine_of_noTab (line : Text) (noTab : '\t' ∉ line)
    (empty : isBlank line = true → line = []) : IsPlainLine line := by
  have indentNoTab : '\t' ∉ line.takeWhile isIndent :=
    fun inside => noTab ((List.takeWhile_sublist isIndent).subset inside)
  have same : detab line = line := (spaced_of_noTab line indentNoTab).detab_eq
  rcases read_detab_cases 0 line with blank | ⟨rest, tags⟩ | ⟨text, code, -⟩ | ⟨text, prose, shown⟩
  · rw [same, Line.read_eq_blank_iff] at blank
    exact .inl (empty blank)
  · exact .inr (.inr (by simp [leavesProse, readLine, tags]))
  · exact .inr (.inr (by simp [leavesProse, readLine, code]))
  · have kept : text = line := by
      rw [same, Line.read] at prose
      split at prose
      · contradiction
      · split at prose
        · contradiction
        · split at prose
          · contradiction
          · simpa [eq_comm] using prose
    exact .inr (.inl ⟨by rw [readLine, prose, kept], kept ▸ shown⟩)

/-! From the lines of a body to its parts. -/

def proseHeld : Option Block → List Text
  | some (.prose held) => held
  | _ => []

theorem gather_prose_line (current : Option Block) (text : Text) :
    ∃ emitted next, (∀ rest, gather current (.prose text :: rest) = emitted ++ gather next rest) ∧
      proseHeld next = proseHeld current ++ [text] := by
  cases current with
  | none => exact ⟨[], some (.prose [text]), fun rest => rfl, rfl⟩
  | some block =>
      cases block with
      | prose held => exact ⟨[], some (.prose (held ++ [text])), fun rest => rfl, rfl⟩
      | code held => exact ⟨[.code (blockText held)], some (.prose [text]), fun rest => rfl, rfl⟩
      | tags names => exact ⟨[.tags names], some (.prose [text]), fun rest => rfl, rfl⟩

theorem gather_blank_line (current : Option Block) :
    ∃ emitted next, (∀ rest, gather current (.blank :: rest) = emitted ++ gather next rest) ∧
      (proseHeld next = proseHeld current ++ [[]] ∨ proseHeld current = [] ∧ proseHeld next = []) := by
  cases current with
  | none => exact ⟨[], none, fun rest => rfl, .inr ⟨rfl, rfl⟩⟩
  | some block =>
      cases block with
      | prose held => exact ⟨[], some (.prose (held ++ [[]])), fun rest => rfl, .inl rfl⟩
      | code held => exact ⟨[], some (.code (held ++ [[]])), fun rest => rfl, .inr ⟨rfl, rfl⟩⟩
      | tags names => exact ⟨[.tags names], none, fun rest => rfl, .inr ⟨rfl, rfl⟩⟩

theorem gather_leaving_line (current : Option Block) (line : Text)
    (leaves : leavesProse line = true) :
    ∃ emitted next, (∀ rest, gather current (readLine line :: rest) = emitted ++ gather next rest) ∧
      proseHeld next = [] ∧
      ∀ held, current = some (.prose held) → Part.prose (blockText held) ∈ emitted := by
  unfold leavesProse at leaves
  split at leaves
  · contradiction
  · contradiction
  · next text read =>
      rw [read]
      cases current with
      | none => exact ⟨[], some (.code [text]), fun rest => rfl, rfl, by simp⟩
      | some block =>
          cases block with
          | prose held =>
              exact ⟨[.prose (blockText held)], some (.code [text]), fun rest => rfl, rfl, by simp⟩
          | code held => exact ⟨[], some (.code (held ++ [text])), fun rest => rfl, rfl, by simp⟩
          | tags names => exact ⟨[.tags names], some (.code [text]), fun rest => rfl, rfl, by simp⟩
  · next names read =>
      rw [read]
      cases current with
      | none => exact ⟨[], some (.tags (tagNames names)), fun rest => rfl, rfl, by simp⟩
      | some block =>
          cases block with
          | prose held =>
              exact ⟨[.prose (blockText held)], some (.tags (tagNames names)), fun rest => rfl, rfl,
                by simp⟩
          | code held =>
              exact ⟨[.code (blockText held)], some (.tags (tagNames names)), fun rest => rfl, rfl,
                by simp⟩
          | tags earlier =>
              exact ⟨[], some (.tags (earlier ++ tagNames names)), fun rest => rfl, rfl, by simp⟩

theorem blank_isPlain (blanks : List Text) (empty : ∀ line ∈ blanks, line = []) :
    ∀ line ∈ blanks, leavesProse line = false ∧ isFence line = false := by
  intro line member
  rw [empty line member]
  exact ⟨rfl, rfl⟩

theorem closedFences_blockText (held : List Text) (single : ∀ line ∈ held, '\n' ∉ line) :
    ∀ block ∈ closedFences leavesProse none held,
      block ∈ closedFences leavesProse none ((blockText held).splitOn '\n') := by
  have cut : held.rdropWhile List.isEmpty ++ held.rtakeWhile List.isEmpty = held :=
    List.rdropWhile_append_rtakeWhile
  have trailing := closedFences_append_plain leavesProse (held.rdropWhile List.isEmpty)
    (held.rtakeWhile List.isEmpty) none
    (blank_isPlain _ fun line member => by simpa using List.mem_rtakeWhile_imp member)
  intro block member
  rw [← cut, trailing] at member
  have kept : held.rdropWhile List.isEmpty ≠ [] := by
    intro nothing
    simp [nothing, closedFences] at member
  have pieces := splitOn_joinLines _ kept fun line inKept =>
    single line ((List.rdropWhile_prefix List.isEmpty held).subset inKept)
  rw [show blockText held = joinLines (held.rdropWhile List.isEmpty) from rfl, pieces]
  exact member

theorem closedFences_close (current : Option Block) (single : ∀ line ∈ proseHeld current, '\n' ∉ line) :
    ∀ block ∈ closedFences leavesProse none (proseHeld current),
      ∃ held, current = some (.prose held) ∧
        block ∈ closedFences leavesProse none ((blockText held).splitOn '\n') := by
  intro block member
  cases current with
  | none => simp [proseHeld, closedFences] at member
  | some opened =>
      cases opened with
      | prose held => exact ⟨held, rfl, closedFences_blockText held single block member⟩
      | code held => simp [proseHeld, closedFences] at member
      | tags names => simp [proseHeld, closedFences] at member

theorem closedFences_step (current : Option Block) (line : Text) (plain : IsPlainLine line)
    (single : ∀ other ∈ proseHeld current, '\n' ∉ other) :
    ∃ emitted next,
      (∀ rest, gather current (readLine line :: rest) = emitted ++ gather next rest) ∧
      (∀ other ∈ proseHeld next, other ∈ proseHeld current ∨ other = line) ∧
      ∀ rest, ∀ block ∈ closedFences leavesProse none (proseHeld current ++ line :: rest),
        (∃ text, Part.prose text ∈ emitted ∧
          block ∈ closedFences leavesProse none (text.splitOn '\n')) ∨
        block ∈ closedFences leavesProse none (proseHeld next ++ rest) := by
  rcases plain with rfl | ⟨prose, -⟩ | leaves
  · obtain ⟨emitted, next, gathered, holds⟩ := gather_blank_line current
    refine ⟨emitted, next, gathered, ?_, ?_⟩
    · rcases holds with longer | ⟨-, still⟩
      · simp [longer]
      · simp [still]
    · intro rest block member
      rcases holds with longer | ⟨nothing, still⟩
      · exact .inr (by simpa [longer] using member)
      · rw [nothing] at member
        exact .inr (by rwa [still])
  · obtain ⟨emitted, next, gathered, longer⟩ := gather_prose_line current line
    refine ⟨emitted, next, by rwa [prose], by simp [longer], ?_⟩
    intro rest block member
    exact .inr (by simpa [longer] using member)
  · obtain ⟨emitted, next, gathered, nothing, closes⟩ := gather_leaving_line current line leaves
    refine ⟨emitted, next, gathered, by simp [nothing], ?_⟩
    intro rest block member
    rw [closedFences_interrupted leavesProse _ _ line none leaves, List.mem_append] at member
    rcases member with here | behind
    · obtain ⟨held, isProse, found⟩ := closedFences_close current single block here
      exact .inl ⟨blockText held, closes held isProse, found⟩
    · exact .inr (by rwa [nothing])

theorem closedFences_gather (lines : List Text) (plain : ∀ line ∈ lines, IsPlainLine line)
    (single : ∀ line ∈ lines, '\n' ∉ line) (current : Option Block)
    (held : ∀ line ∈ proseHeld current, '\n' ∉ line) :
    ∀ block ∈ closedFences leavesProse none (proseHeld current ++ lines),
      ∃ text, Part.prose text ∈ gather current (lines.map readLine) ∧
        block ∈ closedFences leavesProse none (text.splitOn '\n') := by
  induction lines generalizing current with
  | nil =>
      intro block member
      rw [List.append_nil] at member
      obtain ⟨stored, rfl, found⟩ := closedFences_close current held block member
      exact ⟨blockText stored, by simp [gather, Block.close], found⟩
  | cons line rest ih =>
      obtain ⟨emitted, next, gathered, holds, found⟩ :=
        closedFences_step current line (plain line (by simp)) held
      have nextHeld : ∀ other ∈ proseHeld next, '\n' ∉ other := by
        intro other member
        rcases holds other member with earlier | same
        · exact held other earlier
        · rw [same]
          exact single line (by simp)
      intro block member
      rw [List.map_cons, gathered]
      rcases found rest block member with ⟨text, inEmitted, inText⟩ | further
      · exact ⟨text, List.mem_append_left _ inEmitted, inText⟩
      · obtain ⟨text, inRest, inText⟩ :=
          ih (fun other inside => plain other (List.mem_cons_of_mem line inside))
            (fun other inside => single other (List.mem_cons_of_mem line inside)) next nextHeld
            block further
        exact ⟨text, List.mem_append_right _ inRest, inText⟩

/-! From a part to the printed text. -/

theorem fenced_mem_passages (text : Text) (legible : (Part.prose text).Legible) :
    ∀ block ∈ closedFences leavesProse none (text.splitOn '\n'),
      Passage.fenced block ∈ passages text := by
  rw [passages_eq, lines_prose text legible]
  refine fenced_mem_passagesOf leavesProse (text.splitOn '\n') ?_ ?_
  · intro line member
    rcases legible.normal.each line member with rfl | prose
    · rfl
    · simp [leavesProse, readLine, read_prose_line line prose]
  · intro line member fenced
    rcases legible.normal.each line member with rfl | prose
    · simp [isFence, fence, trimStart] at fenced
    · obtain ⟨count, shallow, indent⟩ := prose.shallow
      have spaced := spaced_of_noTab line (by simp [indent])
      rw [indent, List.length_replicate] at spaced
      simp [opensFence, fenced, spaced.indentOf_eq, shallow]

theorem fenced_contiguous (width offset : Nat) (passages : List Passage) (block : List Text)
    (member : Passage.fenced block ∈ passages) : block <:+: passageLines width offset passages := by
  cases passages with
  | nil => simp at member
  | cons passage rest =>
      rw [passageLines]
      rcases List.mem_cons.mp member with rfl | behind
      · exact (List.prefix_append _ _).isInfix
      · have inside : block <:+: rest.flatMap (Passage.linesAt width 0) := by
          rw [List.flatMap_def]
          exact List.infix_of_mem_flatten (List.mem_map.mpr ⟨.fenced block, behind, rfl⟩)
        exact inside.trans (List.suffix_append _ _).isInfix

theorem mem_mapFrom_of_mem {α β : Type} (treat : Nat → α → β) (offset : Nat) (items : List α)
    (item : α) (member : item ∈ items) : ∃ column, treat column item ∈ mapFrom treat offset items := by
  cases items with
  | nil => simp at member
  | cons first rest =>
      rcases List.mem_cons.mp member with rfl | behind
      · exact ⟨offset, by simp [mapFrom]⟩
      · exact ⟨0, List.mem_cons_of_mem _ (List.mem_map.mpr ⟨item, behind, rfl⟩)⟩

theorem closedFences_contiguous (width : Nat) (parts : List Part) (legible : LegibleParts parts)
    (text : Text) (member : Part.prose text ∈ parts) :
    ∀ block ∈ closedFences leavesProse none (text.splitOn '\n'),
      block <:+: printedLines width parts := by
  intro block found
  have fenced := fenced_mem_passages text (legible.each _ member) block found
  obtain ⟨column, inBlocks⟩ := mem_mapFrom_of_mem (Part.printedLines width) (columns openLead)
    (mergeTags parts) (.prose text) ((mem_mergeTags_prose text parts).mpr member)
  exact (fenced_contiguous width column (passages text) block fenced).trans
    (infix_intercalate _ _ _ inBlocks)

theorem splitOn_printed (lines : List Text) (single : ∀ line ∈ lines, '\n' ∉ line) :
    lines <:+: (joinLines lines ++ '\n' :: closeMark).splitOn '\n' := by
  cases lines with
  | nil => exact List.nil_infix
  | cons line rest =>
      have joined := joinLines_append (line :: rest) [closeMark] (by simp) (by simp)
      rw [joinLines_singleton] at joined
      rw [← joined, splitOn_joinLines _ (by simp) (by
        intro other member
        rcases List.mem_append.mp member with here | last
        · exact single other here
        · rw [List.mem_singleton.mp last]
          decide)]
      exact (List.prefix_append _ _).isInfix

/-- Every fenced block that is closed before a line of code or tags comes is printed line by line
as it stands in the body. -/
theorem closedFences_verbatim (kind : Kind) (body : Text) (width : Nat) (noTab : '\t' ∉ body)
    (noReturn : '\r' ∉ body) (noWhite : ∀ line ∈ lines body, isBlank line = true → line = []) :
    ∃ parsed printedBody, parse? kind 0 body = .ok parsed ∧
      (28 * body.length + 38 < columnLimit →
        parsed.comment.print? ⟨width⟩ = .ok (parsed.comment.printed width)) ∧
      (parsed.comment.printed width).text = openLead ++ printedBody ∧
      ∀ block ∈ closedFences leavesProse none (lines body), block <:+: printedBody.splitOn '\n' := by
  obtain ⟨parsed, read, comment⟩ := parse?_ok kind 0 body (by omega)
  have legible : LegibleParts parsed.comment.parts := by
    rw [comment]
    refine bodyParts_legible 0 body ?_
    intro before after found
    exact absurd (by simp [found]) noReturn
  have single := newline_not_mem_lines body
  have plain : ∀ line ∈ lines body, IsPlainLine line := by
    intro line member
    exact isPlainLine_of_noTab line (fun tab => noTab (mem_of_mem_lines body line member _ tab))
      (noWhite line member)
  refine ⟨parsed, _, read, ?_, parsed.comment.printed_text width legible, ?_⟩
  · rw [comment]
    exact print?_bodyParts kind 0 body width
  · intro block member
    obtain ⟨text, inParts, found⟩ := closedFences_gather (lines body) plain single none
      (by simp [proseHeld]) block (by simpa [proseHeld] using member)
    have isPart : Part.prose text ∈ parsed.comment.parts := by
      rw [comment]
      exact inParts
    have printedSingle := printedLines_lacks width parsed.comment.parts legible '\n' (by decide)
      (by decide) fun part inMerged => part.newline_not_mem_pieces (legible.merged part inMerged).normal
    exact (closedFences_contiguous width parsed.comment.parts legible text isPart block found).trans
      (splitOn_printed _ printedSingle)

theorem closedFences_verbatim_narrow :
    ∃ parsed printedBody, parse? .file 0 "a b\n```\n c  d\n\n ``` \n@docs e".toList = .ok parsed ∧
      (parsed.comment.printed 2).text = openLead ++ printedBody ∧
      ["```".toList, " c  d".toList, [], " ``` ".toList] <:+: printedBody.splitOn '\n' := by
  obtain ⟨parsed, printedBody, read, -, printed, verbatim⟩ :=
    closedFences_verbatim .file "a b\n```\n c  d\n\n ``` \n@docs e".toList 2 (by decide) (by decide)
      (by decide)
  exact ⟨parsed, printedBody, read, printed, verbatim _ (by decide)⟩

/-- A fence does not keep the lines between together if one of them is code. -/
theorem fence_around_code :
    ∃ parsed printedBody, parse? .doc 0 "```\n    code\n```".toList = .ok parsed ∧
      (parsed.comment.printed 80).text = openLead ++ printedBody ∧
      ∃ block ∈ closedFences (fun _ => false) none (lines "```\n    code\n```".toList),
        ¬ block <:+: printedBody.splitOn '\n' := by
  obtain ⟨parsed, read, comment⟩ := parse?_ok .doc 0 "```\n    code\n```".toList (by decide)
  refine ⟨parsed, "```\n\n    code\n\n```\n-\x7d".toList, read, ?_,
    ["```".toList, "    code".toList, "```".toList], ?_, ?_⟩
  · rw [comment]
    decide +kernel
  · decide
  · decide

end CommentFormat
