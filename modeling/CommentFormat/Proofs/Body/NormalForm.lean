import CommentFormat.Body
import CommentFormat.Proofs.Body.Line
import CommentFormat.Proofs.Text.Lines
import Mathlib.Data.List.Chain
import Mathlib.Data.List.DropRight

/-! The normal form of the parts of a comment: every body is read into parts of that form. -/

namespace CommentFormat

inductive PartSort where
  | prose
  | code
  | tags
deriving DecidableEq, Repr

def Part.sort : Part → PartSort
  | .prose _ => .prose
  | .code _ => .code
  | .tags _ => .tags

def Block.sort : Block → PartSort
  | .prose _ => .prose
  | .code _ => .code
  | .tags _ => .tags

def Line.sort? : Line → Option PartSort
  | .blank => none
  | .tags _ => some .tags
  | .code _ => some .code
  | .prose _ => some .prose

/-- Two parts of one sort may follow each other only if they are tags. -/
def Part.Apart (first second : Part) : Prop :=
  first.sort = second.sort → first.sort = .tags

/-- A text that starts and ends with something to show, and whose lines are empty or as
`isShown` says. -/
structure NormalText (isShown : Text → Prop) (text : Text) : Prop where
  first : ∀ line ∈ (text.splitOn '\n').head?, isBlank line = false
  last : ∀ line ∈ (text.splitOn '\n').getLast?, isBlank line = false
  each : ∀ line ∈ text.splitOn '\n', line = [] ∨ isShown line

structure IsName (name : Text) : Prop where
  shown : name ≠ []
  trimmed : trim name = name
  noComma : ',' ∉ name
  noBreak : '\n' ∉ name

def Part.Normal : Part → Prop
  | .prose text => NormalText IsProseLine text
  | .code text => NormalText IsCodeLine text
  | .tags names => ∀ name ∈ names, IsName name

structure NormalParts (parts : List Part) : Prop where
  each : ∀ part ∈ parts, part.Normal
  apart : parts.IsChain Part.Apart

/-! What an open block holds. -/

structure HeldLines (isShown : Text → Prop) (held : List Text) : Prop where
  first : ∃ line rest, held = line :: rest ∧ isShown line
  each : ∀ line ∈ held, line = [] ∨ isShown line

theorem HeldLines.append {isShown : Text → Prop} {held : List Text}
    (lines : HeldLines isShown held) (line : Text) (shown : line = [] ∨ isShown line) :
    HeldLines isShown (held ++ [line]) := by
  obtain ⟨first, rest, start, firstShown⟩ := lines.first
  refine ⟨⟨first, rest ++ [line], by simp [start], firstShown⟩, ?_⟩
  intro other member
  rcases List.mem_append.mp member with earlier | last
  · exact lines.each other earlier
  · rw [List.mem_singleton.mp last]
    exact shown

theorem HeldLines.singleton {isShown : Text → Prop} (line : Text) (shown : isShown line) :
    HeldLines isShown [line] := by
  refine ⟨⟨line, [], rfl, shown⟩, ?_⟩
  intro other member
  rw [List.mem_singleton.mp member]
  exact .inr shown

theorem NormalText.heldLines {isShown : Text → Prop} {text : Text}
    (normal : NormalText isShown text) : HeldLines isShown (text.splitOn '\n') := by
  obtain ⟨first, rest, cut⟩ := List.exists_cons_of_ne_nil (List.splitOn_ne_nil '\n' text)
  refine ⟨⟨first, rest, cut, ?_⟩, normal.each⟩
  have visible := normal.first first (by simp [cut])
  rcases normal.each first (by simp [cut]) with empty | shown
  · simp [empty] at visible
  · exact shown

theorem NormalText.last_nonempty {isShown : Text → Prop} {text : Text}
    (normal : NormalText isShown text) :
    ∀ line ∈ (text.splitOn '\n').getLast?, line ≠ [] := by
  intro line member empty
  have visible := normal.last line member
  simp [empty] at visible

theorem exists_blockText (held : List Text) (start : ∀ line ∈ held.head?, line ≠ [])
    (nonempty : held ≠ []) :
    ∃ kept blanks, held = kept ++ blanks ∧ (∀ line ∈ blanks, line = []) ∧ kept ≠ [] ∧
      (∀ line ∈ kept.getLast?, line ≠ []) ∧ blockText held = joinLines kept := by
  obtain ⟨first, rest, cut⟩ := List.exists_cons_of_ne_nil nonempty
  have firstShown : first ≠ [] := start first (by simp [cut])
  have keptShown : held.rdropWhile List.isEmpty ≠ [] := by
    intro empty
    rw [List.rdropWhile_eq_nil_iff] at empty
    exact firstShown (by simpa using empty first (by simp [cut]))
  refine ⟨held.rdropWhile List.isEmpty, held.rtakeWhile List.isEmpty,
    List.rdropWhile_append_rtakeWhile.symm, ?_, keptShown, ?_, rfl⟩
  · intro line member
    simpa using List.mem_rtakeWhile_imp member
  · intro line member
    have last := List.rdropWhile_last_not List.isEmpty held keptShown
    rw [List.getLast?_eq_some_getLast keptShown, Option.mem_some] at member
    rw [member] at last
    simpa using last

theorem normalText_blockText (isShown : Text → Prop) (held : List Text)
    (visible : ∀ line, isShown line → isBlank line = false) (lines : HeldLines isShown held)
    (single : ∀ line ∈ held, '\n' ∉ line) : NormalText isShown (blockText held) := by
  have shownOfNonempty : ∀ line ∈ held, line ≠ [] → isBlank line = false := by
    intro line member nonempty
    rcases lines.each line member with empty | shown
    · contradiction
    · exact visible line shown
  obtain ⟨first, rest, cut, firstShown⟩ := lines.first
  have firstNonempty : first ≠ [] := by
    intro empty
    have blank := visible first firstShown
    simp [empty] at blank
  obtain ⟨kept, blanks, parts, -, keptShown, last, text⟩ :=
    exists_blockText held (by simp [cut, firstNonempty]) (by simp [cut])
  have inside : ∀ line ∈ kept, line ∈ held := by simp +contextual [parts]
  have split : (blockText held).splitOn '\n' = kept := by
    rw [text, splitOn_joinLines kept keptShown fun line member => single line (inside line member)]
  obtain ⟨start, later, keptCut⟩ := List.exists_cons_of_ne_nil keptShown
  have same : start = first := by
    have heads : held = start :: (later ++ blanks) := by simp [parts, keptCut]
    simp_all
  refine ⟨?_, ?_, ?_⟩ <;> rw [split]
  · simp [keptCut, same, visible first firstShown]
  · intro line member
    exact shownOfNonempty line (inside line (List.mem_of_getLast? member)) (last line member)
  · exact fun line member => lines.each line (inside line member)

def Block.Normal : Block → Prop
  | .prose held => HeldLines IsProseLine held
  | .code held => HeldLines IsCodeLine held
  | .tags names => ∀ name ∈ names, IsName name

def Block.texts : Block → List Text
  | .prose held => held
  | .code held => held
  | .tags names => names

def Part.texts : Part → List Text
  | .prose text => [text]
  | .code text => [text]
  | .tags names => names

def Line.text : Line → Text
  | .blank => []
  | .tags rest => rest
  | .code text => text
  | .prose text => text

/-! Names of a tag line. -/

theorem trimEnd_isPrefix (text : Text) : trimEnd text <+: text :=
  List.rdropWhile_prefix isSpace text

theorem trim_sublist (text : Text) : (trim text).Sublist text :=
  (trimEnd_isPrefix (trimStart text)).sublist.trans (List.dropWhile_sublist isSpace)

theorem trim_trim (text : Text) : trim (trim text) = trim text := by
  by_cases blank : trim text = []
  · rw [blank]
    rfl
  · obtain ⟨first, rest, start⟩ := List.exists_cons_of_ne_nil blank
    have firstShown : isSpace first = false := by
      apply stop_dropWhile isSpace text first
      obtain ⟨removed, whole⟩ := trimEnd_isPrefix (trimStart text)
      rw [← trimStart, ← whole, ← trim, start]
      simp
    have started : trimStart (trim text) = trim text := by
      simp [trimStart, start, firstShown]
    calc trim (trim text) = trimEnd (trim text) := by rw [trim, started]
      _ = trim text := List.rdropWhile_idempotent isSpace (trimStart text)

theorem isName_of_mem_tagNames (rest name : Text) (single : '\n' ∉ rest)
    (member : name ∈ tagNames rest) : IsName name := by
  simp only [tagNames, List.mem_filter, List.mem_map, Bool.not_eq_true',
    List.isEmpty_eq_false_iff] at member
  obtain ⟨⟨piece, inRest, same⟩, shown⟩ := member
  have inside := (trim_sublist piece).subset
  have fromRest := of_mem_splitOn ',' rest piece inRest
  refine ⟨shown, by rw [← same, trim_trim], ?_, ?_⟩ <;> rw [← same]
  · exact fun comma => (fromRest ',' (inside comma)).1 rfl
  · exact fun feed => single (fromRest '\n' (inside feed)).2

theorem mem_of_mem_tagNames (rest name : Text) (member : name ∈ tagNames rest) :
    ∀ character ∈ name, character ∈ rest := by
  simp only [tagNames, List.mem_filter, List.mem_map] at member
  obtain ⟨⟨piece, inRest, same⟩, -⟩ := member
  intro character inside
  rw [← same] at inside
  exact (of_mem_splitOn ',' rest piece inRest character ((trim_sublist piece).subset inside)).2

/-! What opening, extending and closing do to a block. -/

def Line.Normal : Line → Prop
  | .blank => True
  | .tags rest => '\n' ∉ rest
  | .code text => IsCodeLine text
  | .prose text => IsProseLine text

theorem Block.opening?_normal {line : Line} {block : Block} (normal : line.Normal)
    (opened : Block.opening? line = some block) : block.Normal := by
  cases line with
  | blank => simp [Block.opening?] at opened
  | tags rest =>
      obtain rfl : Block.tags (tagNames rest) = block := by simpa [Block.opening?] using opened
      exact fun name member => isName_of_mem_tagNames rest name normal member
  | code text =>
      obtain rfl : Block.code [text] = block := by simpa [Block.opening?] using opened
      exact HeldLines.singleton text normal
  | prose text =>
      obtain rfl : Block.prose [text] = block := by simpa [Block.opening?] using opened
      exact HeldLines.singleton text normal

theorem Block.extend?_normal {line : Line} {block longer : Block} (lineNormal : line.Normal)
    (normal : block.Normal) (extended : block.extend? line = some longer) : longer.Normal := by
  cases block <;> cases line <;>
    simp only [Block.extend?, Option.some.injEq, reduceCtorEq] at extended
  case prose.blank held =>
      rw [← extended]
      exact HeldLines.append normal [] (.inl rfl)
  case prose.prose held text =>
      rw [← extended]
      exact HeldLines.append normal text (.inr lineNormal)
  case code.blank held =>
      rw [← extended]
      exact HeldLines.append normal [] (.inl rfl)
  case code.code held text =>
      rw [← extended]
      exact HeldLines.append normal text (.inr lineNormal)
  case tags.tags names rest =>
      rw [← extended]
      intro name member
      rcases List.mem_append.mp member with earlier | added
      · exact normal name earlier
      · exact isName_of_mem_tagNames rest name lineNormal added

def Block.Lacks (character : Char) (block : Block) : Prop :=
  ∀ text ∈ block.texts, character ∉ text

theorem Block.opening?_lacks {character : Char} {line : Line} {block : Block}
    (absent : character ∉ line.text) (opened : Block.opening? line = some block) :
    block.Lacks character := by
  cases line <;> simp only [Block.opening?, Option.some.injEq, reduceCtorEq] at opened
  case tags rest =>
      rw [← opened]
      exact fun name member inside => absent (mem_of_mem_tagNames rest name member character inside)
  all_goals
    rw [← opened]
    simpa [Block.Lacks, Block.texts, Line.text] using absent

theorem Block.extend?_texts {line : Line} {block longer : Block}
    (extended : block.extend? line = some longer) :
    ∃ added, longer.texts = block.texts ++ added ∧
      ∀ text ∈ added, ∀ character ∈ text, character ∈ line.text := by
  cases block <;> cases line <;>
    simp only [Block.extend?, Option.some.injEq, reduceCtorEq] at extended
  case tags.tags names rest =>
      exact ⟨_, (congrArg Block.texts extended).symm, mem_of_mem_tagNames rest⟩
  all_goals exact ⟨_, (congrArg Block.texts extended).symm, by simp [Line.text]⟩

theorem Block.extend?_lacks {character : Char} {line : Line} {block longer : Block}
    (absent : character ∉ line.text) (lacks : block.Lacks character)
    (extended : block.extend? line = some longer) : longer.Lacks character := by
  obtain ⟨added, texts, fromLine⟩ := Block.extend?_texts extended
  intro text member
  rw [texts, List.mem_append] at member
  rcases member with earlier | new
  · exact lacks text earlier
  · exact fun inside => absent (fromLine text new character inside)

theorem Block.close_normal {block : Block} (normal : block.Normal) (single : block.Lacks '\n') :
    block.close.Normal := by
  cases block with
  | prose held => exact normalText_blockText _ held (fun _ prose => prose.shown) normal single
  | code held => exact normalText_blockText _ held (fun _ code => code.shown) normal single
  | tags names => exact normal

theorem not_mem_blockText (character : Char) (held : List Text) (notBreak : character ≠ '\n')
    (absent : ∀ text ∈ held, character ∉ text) : character ∉ blockText held := by
  refine not_mem_joinLines character _ notBreak fun text member => absent text ?_
  exact (List.rdropWhile_prefix List.isEmpty (l := held)).subset member

theorem Block.close_lacks {character : Char} {block : Block} (notBreak : character ≠ '\n')
    (lacks : block.Lacks character) : ∀ text ∈ block.close.texts, character ∉ text := by
  cases block with
  | prose held => simpa [Block.close, Part.texts] using not_mem_blockText character held notBreak lacks
  | code held => simpa [Block.close, Part.texts] using not_mem_blockText character held notBreak lacks
  | tags names => exact lacks

theorem Block.close_sort (block : Block) : block.close.sort = block.sort := by
  cases block <;> rfl

theorem Block.opening?_sort {line : Line} {block : Block}
    (opened : Block.opening? line = some block) : line.sort? = some block.sort := by
  cases line <;> simp only [Block.opening?, Option.some.injEq, reduceCtorEq] at opened <;>
    rw [← opened] <;> rfl

theorem Block.extend?_sort {line : Line} {block longer : Block}
    (extended : block.extend? line = some longer) : longer.sort = block.sort := by
  cases block <;> cases line <;>
    simp only [Block.extend?, Option.some.injEq, reduceCtorEq] at extended <;>
    rw [← extended] <;> rfl

theorem Block.extend?_eq_none_iff (block : Block) (line : Line) :
    block.extend? line = none ↔
      match line.sort? with
      | none => block.sort = .tags
      | some sort => block.sort ≠ sort := by
  cases block <;> cases line <;> simp [Block.extend?, Line.sort?, Block.sort]

/-! From one line to all lines of a body. -/

theorem gather_invariant (holds : Block → Prop) (lines : List Line)
    (opens : ∀ line ∈ lines, ∀ block, Block.opening? line = some block → holds block)
    (grows : ∀ line ∈ lines, ∀ block longer, block.extend? line = some longer →
      holds block → holds longer)
    (current : Option Block) (start : ∀ block ∈ current, holds block) :
    ∀ part ∈ gather current lines, ∃ block, holds block ∧ part = block.close := by
  induction lines generalizing current with
  | nil =>
      cases current with
      | none => simp [gather]
      | some block => simpa [gather] using ⟨block, start block rfl, rfl⟩
  | cons line rest ih =>
      have restOpens := fun other member => opens other (List.mem_cons_of_mem line member)
      have restGrows := fun other member => grows other (List.mem_cons_of_mem line member)
      have opened : ∀ block ∈ Block.opening? line, holds block :=
        fun block found => opens line (by simp) block found
      cases current with
      | none => exact ih restOpens restGrows (Block.opening? line) opened
      | some block =>
          intro part member
          rw [gather] at member
          cases extended : block.extend? line with
          | some longer =>
              rw [extended] at member
              refine ih restOpens restGrows (some longer) ?_ part member
              intro other same
              rw [← Option.some.inj same]
              exact grows line (by simp) block longer extended (start block rfl)
          | none =>
              rw [extended] at member
              rcases List.mem_cons.mp member with closed | later
              · exact ⟨block, start block rfl, closed⟩
              · exact ih restOpens restGrows (Block.opening? line) opened part later

theorem gather_apart (lines : List Line) (current : Option Block) :
    (gather current lines).IsChain Part.Apart ∧
      ∀ block ∈ current, ∃ part ∈ (gather current lines).head?, part.sort = block.sort := by
  induction lines generalizing current with
  | nil =>
      cases current with
      | none => simp [gather]
      | some block => simp [gather, Block.close_sort]
  | cons line rest ih =>
      cases current with
      | none => exact ⟨(ih (Block.opening? line)).1, by simp⟩
      | some block =>
          rw [gather]
          cases extended : block.extend? line with
          | some longer =>
              obtain ⟨chain, first⟩ := ih (some longer)
              obtain ⟨part, head, sort⟩ := first longer rfl
              refine ⟨chain, ?_⟩
              intro other same
              obtain rfl : block = other := by simpa using same
              exact ⟨part, head, sort.trans (Block.extend?_sort extended)⟩
          | none =>
              obtain ⟨chain, first⟩ := ih (Block.opening? line)
              refine ⟨chain.cons ?_, ?_⟩
              · intro next head same
                rw [Block.extend?_eq_none_iff] at extended
                cases opened : Block.opening? line with
                | none =>
                    have blank : line.sort? = none := by
                      cases line <;> simp_all [Block.opening?, Line.sort?]
                    rw [blank] at extended
                    rw [Block.close_sort, extended]
                | some other =>
                    obtain ⟨part, partHead, sort⟩ := first other opened
                    rw [Block.opening?_sort opened] at extended
                    obtain rfl : next = part := Option.some.inj (head.symm.trans partHead)
                    rw [Block.close_sort, sort] at same
                    exact absurd same extended
              · intro other same
                obtain rfl : block = other := by simpa using same
                exact ⟨block.close, by simp, Block.close_sort block⟩

/-! Reading adds no character but spaces and line feeds. -/

theorem mem_detab (character : Char) (line : Text) (inside : character ∈ detab line) :
    character = ' ' ∨ character ∈ line := by
  obtain ⟨count, spaced⟩ := exists_spaced_detab line
  rw [spaced.cut, List.mem_append] at inside
  rcases inside with margin | content
  · exact .inl (List.eq_of_mem_replicate margin)
  · exact .inr ((List.dropWhile_sublist isIndent).subset content)

theorem read_text_suffix (baseIndent : Nat) (line : Text) :
    (Line.read baseIndent line).text <:+ line := by
  unfold Line.read
  split
  · exact List.nil_suffix
  · split
    · exact List.drop_suffix _ line
    · split
      · next rest tagged =>
          have cut := ((afterTagWord?_eq_some_iff _ rest).mp tagged).1
          exact List.IsSuffix.trans ⟨tagWord, cut.symm⟩ (List.drop_suffix _ line)
      · exact List.drop_suffix _ line

theorem not_mem_bodyLines (character : Char) (baseIndent : Nat) (body : Text)
    (notSpace : character ≠ ' ') (absent : ∀ line ∈ lines body, character ∉ line) :
    ∀ line ∈ bodyLines baseIndent body, character ∉ line.text := by
  intro line member inside
  simp only [bodyLines, List.mem_map] at member
  obtain ⟨raw, inBody, rfl⟩ := member
  rcases mem_detab character raw ((read_text_suffix baseIndent _).subset inside) with space | here
  · exact notSpace space
  · exact absent raw inBody here

theorem read_normal (baseIndent : Nat) (body : Text) :
    ∀ line ∈ bodyLines baseIndent body, line.Normal := by
  intro line member
  have single := not_mem_bodyLines '\n' baseIndent body (by decide) (newline_not_mem_lines body)
    line member
  simp only [bodyLines, List.mem_map] at member
  obtain ⟨raw, -, rfl⟩ := member
  rcases read_detab_cases baseIndent raw with blank | ⟨rest, tags⟩ | ⟨text, code, shown⟩ |
    ⟨text, prose, shown⟩
  · simp [blank, Line.Normal]
  · simpa [tags, Line.Normal, Line.text] using single
  · simpa [code, Line.Normal] using shown
  · simpa [prose, Line.Normal] using shown

theorem bodyParts_normal (baseIndent : Nat) (body : Text) :
    NormalParts (bodyParts baseIndent body) := by
  have single := not_mem_bodyLines '\n' baseIndent body (by decide) (newline_not_mem_lines body)
  have normal := read_normal baseIndent body
  refine ⟨?_, (gather_apart _ none).1⟩
  intro part member
  obtain ⟨block, ⟨held, lacks⟩, rfl⟩ := gather_invariant
    (fun block => block.Normal ∧ block.Lacks '\n') (bodyLines baseIndent body)
    (fun line inBody block opened => ⟨Block.opening?_normal (normal line inBody) opened,
      Block.opening?_lacks (single line inBody) opened⟩)
    (fun line inBody block longer extended ⟨held, lacks⟩ =>
      ⟨Block.extend?_normal (normal line inBody) held extended,
        Block.extend?_lacks (single line inBody) lacks extended⟩)
    none (by simp) part member
  exact Block.close_normal held lacks

theorem bodyParts_lacks (character : Char) (baseIndent : Nat) (body : Text)
    (notSpace : character ≠ ' ') (notBreak : character ≠ '\n')
    (absent : ∀ line ∈ lines body, character ∉ line) :
    ∀ part ∈ bodyParts baseIndent body, ∀ text ∈ part.texts, character ∉ text := by
  have lacking := not_mem_bodyLines character baseIndent body notSpace absent
  intro part member
  obtain ⟨block, lacks, rfl⟩ := gather_invariant (Block.Lacks character)
    (bodyLines baseIndent body)
    (fun line inBody block opened => Block.opening?_lacks (lacking line inBody) opened)
    (fun line inBody block longer extended lacks =>
      Block.extend?_lacks (lacking line inBody) lacks extended)
    none (by simp) part member
  exact Block.close_lacks notBreak lacks

theorem parse?_ok (kind : Kind) (baseIndent : Nat) (body : Text) (small : baseIndent ≤ columnLimit - 5) :
    ∃ parsed, parse? kind baseIndent body = .ok parsed ∧
      parsed.comment = ⟨bodyParts baseIndent body⟩ := by
  have fits : baseIndent + indentStep < columnLimit := by
    have limit : 5 ≤ columnLimit := by decide
    have step : indentStep = 4 := rfl
    omega
  rw [parse?, bodyLines?_ok baseIndent body fun _ _ => .inr fits]
  refine ⟨_, rfl, ?_⟩
  have same := Comment.ofParts_parts kind (bodyParts baseIndent body)
  exact congrArg Comment.mk same

end CommentFormat
