import CommentFormat.Proofs.Body.Reading
import Mathlib.Data.List.SplitBy

/-! Pieces: the lines of a body that have something to show, cut where one part ends and the next
one starts. The parts of a body are its pieces, each stored as one part, though they are found by
a pass that keeps one block open. -/

namespace CommentFormat

/-- A line with something to show, and the number of blank lines right above it. -/
structure Entry where
  blanks : Nat
  sort : PartSort
  text : Text
deriving DecidableEq, Repr

def entriesAfter (blanks : Nat) : List Line → List Entry
  | [] => []
  | line :: rest =>
      match line.sort? with
      | none => entriesAfter (blanks + 1) rest
      | some sort => ⟨blanks, sort, line.text⟩ :: entriesAfter 0 rest

def entries (lines : List Line) : List Entry :=
  entriesAfter 0 lines

def Entry.joins (upper lower : Entry) : Bool :=
  upper.sort = lower.sort && (lower.sort ≠ .tags || lower.blanks = 0)

def pieces (entries : List Entry) : List (List Entry) :=
  entries.splitBy Entry.joins

/-- The texts of a piece, with an empty line for each blank one between two of them. -/
def storedLines : List Entry → List Text
  | [] => []
  | first :: rest =>
      first.text :: rest.flatMap fun entry => List.replicate entry.blanks [] ++ [entry.text]

def Part.ofEntries (stored : List Entry) : PartSort → Part
  | .prose => .prose (joinLines (storedLines stored))
  | .code => .code (joinLines (storedLines stored))
  | .tags => .tags (stored.flatMap fun entry => tagNames entry.text)

def piecePart? (piece : List Entry) : Option Part :=
  piece.head?.map fun first => .ofEntries piece first.sort

/-! Nothing but blank lines is left out. -/

def Entry.line (entry : Entry) : Line :=
  match entry.sort with
  | .prose => .prose entry.text
  | .code => .code entry.text
  | .tags => .tags entry.text

def Entry.source (entry : Entry) : List Line :=
  List.replicate entry.blanks .blank ++ [entry.line]

theorem Line.eq_entry_line {line : Line} {sort : PartSort} (found : line.sort? = some sort)
    (blanks : Nat) : line = (Entry.mk blanks sort line.text).line := by
  cases line <;> simp only [Line.sort?, Option.some.injEq, reduceCtorEq] at found <;>
    rw [← found] <;> rfl

theorem Line.eq_blank_of_sort? {line : Line} (found : line.sort? = none) : line = .blank := by
  cases line <;> simp [Line.sort?] at found
  rfl

theorem entriesAfter_append_blank (lines : List Line) (blanks below : Nat) :
    entriesAfter blanks (lines ++ List.replicate below .blank) = entriesAfter blanks lines := by
  induction lines generalizing blanks with
  | nil =>
      induction below generalizing blanks with
      | zero => rfl
      | succ below ih => exact ih (blanks + 1)
  | cons line rest ih =>
      rw [List.cons_append, entriesAfter, entriesAfter]
      cases line.sort? <;> simp only [ih]

theorem exists_source_entriesAfter (lines : List Line) (blanks : Nat) :
    ∃ below, List.replicate blanks .blank ++ lines =
      (entriesAfter blanks lines).flatMap Entry.source ++ List.replicate below .blank := by
  induction lines generalizing blanks with
  | nil => exact ⟨blanks, by simp [entriesAfter]⟩
  | cons line rest ih =>
      cases found : line.sort? with
      | none =>
          obtain ⟨below, same⟩ := ih (blanks + 1)
          refine ⟨below, ?_⟩
          rw [entriesAfter, found]
          simp [← same, Line.eq_blank_of_sort? found, List.replicate_succ']
      | some sort =>
          obtain ⟨below, same⟩ := ih 0
          refine ⟨below, ?_⟩
          rw [entriesAfter, found]
          simpa [Entry.source, ← Line.eq_entry_line found blanks] using same

/-! An open block holds the entries of a piece so far, and blank lines below them. -/

def openBlock (piece : List Entry) (blanks : Nat) : PartSort → Block
  | .prose => .prose (storedLines piece ++ List.replicate blanks [])
  | .code => .code (storedLines piece ++ List.replicate blanks [])
  | .tags => .tags (piece.flatMap fun entry => tagNames entry.text)

theorem openBlock_sort (piece : List Entry) (blanks : Nat) (sort : PartSort) :
    (openBlock piece blanks sort).sort = sort := by
  cases sort <;> rfl

theorem storedLines_append (piece : List Entry) (shown : piece ≠ []) (entry : Entry) :
    storedLines (piece ++ [entry]) =
      storedLines piece ++ (List.replicate entry.blanks [] ++ [entry.text]) := by
  obtain ⟨first, rest, rfl⟩ := List.exists_cons_of_ne_nil shown
  simp [storedLines]

theorem opening?_eq_openBlock {line : Line} {sort : PartSort} (found : line.sort? = some sort)
    (blanks : Nat) :
    Block.opening? line = some (openBlock [⟨blanks, sort, line.text⟩] 0 sort) := by
  cases line <;> simp only [Line.sort?, Option.some.injEq, reduceCtorEq] at found <;>
    rw [← found] <;> simp [Block.opening?, openBlock, storedLines, Line.text]

theorem extend?_openBlock {line : Line} {sort : PartSort} (found : line.sort? = some sort)
    (piece : List Entry) (shown : piece ≠ []) (blanks : Nat) :
    (openBlock piece blanks sort).extend? line =
      some (openBlock (piece ++ [⟨blanks, sort, line.text⟩]) 0 sort) := by
  cases line <;> simp only [Line.sort?, Option.some.injEq, reduceCtorEq] at found <;>
    subst found <;> simp [openBlock, Block.extend?, storedLines_append piece shown, Line.text]

theorem extend?_blank_openBlock (piece : List Entry) (blanks : Nat) {sort : PartSort}
    (notTags : sort ≠ .tags) :
    (openBlock piece blanks sort).extend? .blank = some (openBlock piece (blanks + 1) sort) := by
  cases sort <;> simp_all [openBlock, Block.extend?, List.replicate_succ']

def Line.Stores (line : Line) : Prop :=
  ∀ sort ∈ line.sort?, sort ≠ .tags → line.text ≠ []

theorem Line.Normal.stores {line : Line} (normal : line.Normal) : line.Stores := by
  intro sort found notTags empty
  cases line with
  | blank => simp [Line.sort?] at found
  | tags rest => simp_all [Line.sort?]
  | code text =>
      have shown := IsCodeLine.shown normal
      simp_all [Line.text]
  | prose text =>
      have shown := IsProseLine.shown normal
      simp_all [Line.text]

structure OpenPiece (sort : PartSort) (piece : List Entry) : Prop where
  shown : piece ≠ []
  together : piece.IsChain fun upper lower => upper.joins lower = true
  sorts : ∀ entry ∈ piece, entry.sort = sort
  texts : sort ≠ .tags → ∀ entry ∈ piece, entry.text ≠ []

theorem openPiece_singleton {line : Line} {sort : PartSort} (stores : line.Stores)
    (found : line.sort? = some sort) (blanks : Nat) :
    OpenPiece sort [⟨blanks, sort, line.text⟩] :=
  ⟨by simp, by simp, by simp, fun notTags => by simpa using stores sort found notTags⟩

namespace OpenPiece

variable {sort : PartSort} {piece : List Entry} (opened : OpenPiece sort piece)

include opened

theorem append {line : Line} (stores : line.Stores) (found : line.sort? = some sort)
    (blanks : Nat) (directly : sort = .tags → blanks = 0) :
    OpenPiece sort (piece ++ [⟨blanks, sort, line.text⟩]) := by
  refine ⟨by simp, ?_, ?_, ?_⟩
  · rw [List.isChain_append]
    refine ⟨opened.together, by simp, ?_⟩
    intro last isLast entry isEntry
    have lastSort := opened.sorts last (List.mem_of_getLast? isLast)
    simp only [List.head?_cons, Option.mem_some] at isEntry
    subst isEntry
    by_cases isTags : sort = .tags
    · simp [Entry.joins, lastSort, directly isTags]
    · simp [Entry.joins, lastSort, isTags]
  · simpa [or_imp, forall_and] using opened.sorts
  · intro notTags
    simpa [or_imp, forall_and] using ⟨opened.texts notTags, stores sort found notTags⟩

theorem last_stored (notTags : sort ≠ .tags) :
    ∀ line ∈ (storedLines piece).getLast?, line ≠ [] := by
  obtain ⟨earlier, last, rfl⟩ : ∃ earlier last, piece = earlier ++ [last] :=
    ⟨_, _, (List.dropLast_concat_getLast opened.shown).symm⟩
  have lastShown := opened.texts notTags last (by simp)
  cases earlier with
  | nil => simpa [storedLines] using lastShown
  | cons first rest =>
      rw [storedLines_append (first :: rest) (by simp)]
      simpa using lastShown

theorem close_openBlock (blanks : Nat) :
    (openBlock piece blanks sort).close = .ofEntries piece sort := by
  by_cases isTags : sort = .tags
  · rw [isTags]
    rfl
  · induction blanks with
    | zero =>
        have joined := blockText_eq_joinLines _ (opened.last_stored isTags)
        cases sort <;> simp_all [openBlock, Block.close, Part.ofEntries]
    | succ blanks ih =>
        rw [← ih]
        exact Block.close_extend?_blank (extend?_blank_openBlock piece blanks isTags)

theorem piecePart?_eq : piecePart? piece = some (.ofEntries piece sort) := by
  obtain ⟨first, rest, rfl⟩ := List.exists_cons_of_ne_nil opened.shown
  have firstSort := opened.sorts first (by simp)
  simp [piecePart?, firstSort]

theorem pieces_append (later : List Entry)
    (turns : ∀ entry ∈ later.head?, sort = entry.sort → sort = .tags ∧ 0 < entry.blanks) :
    pieces (piece ++ later) = piece :: pieces later := by
  have apart : ∀ last ∈ piece.getLast?, ∀ entry ∈ later.head?, last.joins entry = false := by
    intro last isLast entry isFirst
    have lastSort := opened.sorts last (List.mem_of_getLast? isLast)
    by_cases same : sort = entry.sort
    · obtain ⟨isTags, separated⟩ := turns entry isFirst same
      have notDirectly : entry.blanks ≠ 0 := by omega
      simp [Entry.joins, lastSort, ← same, isTags, notDirectly]
    · simp [Entry.joins, lastSort, same]
  rw [pieces, List.splitBy_append apart, List.splitBy_of_isChain opened.shown opened.together]
  rfl

theorem gather_close (blanks : Nat) (line : Line) (rest : List Line)
    (refused : (openBlock piece blanks sort).extend? line = none) (later : List Entry)
    (turns : ∀ entry ∈ later.head?, sort = entry.sort → sort = .tags ∧ 0 < entry.blanks)
    (behind : (gather (Block.opening? line) rest).map some = (pieces later).map piecePart?) :
    (gather (some (openBlock piece blanks sort)) (line :: rest)).map some =
      (pieces (piece ++ later)).map piecePart? := by
  rw [gather, refused, opened.pieces_append later turns]
  simp only [List.map_cons, behind, opened.close_openBlock, opened.piecePart?_eq]

end OpenPiece

/-! The pass over the lines. -/

theorem blanks_le_entriesAfter (lines : List Line) (blanks : Nat) :
    ∀ entry ∈ (entriesAfter blanks lines).head?, blanks ≤ entry.blanks := by
  induction lines generalizing blanks with
  | nil => simp [entriesAfter]
  | cons line rest ih =>
      rw [entriesAfter]
      cases line.sort? with
      | none =>
          intro entry isFirst
          exact Nat.le_of_succ_le (ih (blanks + 1) entry isFirst)
      | some sort => simp

theorem gather_pieces (lines : List Line) (stores : ∀ line ∈ lines, line.Stores) (blanks : Nat) :
    (gather none lines).map some = (pieces (entriesAfter blanks lines)).map piecePart? ∧
      ∀ sort piece, OpenPiece sort piece → (sort = .tags → blanks = 0) →
        (gather (some (openBlock piece blanks sort)) lines).map some =
          (pieces (piece ++ entriesAfter blanks lines)).map piecePart? := by
  induction lines generalizing blanks with
  | nil =>
      refine ⟨rfl, fun sort piece opened _ => ?_⟩
      rw [entriesAfter, opened.pieces_append [] (by simp)]
      simp [gather, opened.close_openBlock, opened.piecePart?_eq, pieces]
  | cons line rest ih =>
      have lineStores := stores line (by simp)
      have restStores := fun other member => stores other (List.mem_cons_of_mem line member)
      rw [entriesAfter]
      cases found : line.sort? with
      | none =>
          obtain rfl := Line.eq_blank_of_sort? found
          obtain ⟨outside, inside⟩ := ih restStores (blanks + 1)
          refine ⟨outside, fun sort piece opened _ => ?_⟩
          by_cases isTags : sort = .tags
          · refine opened.gather_close blanks .blank rest ?_ _ ?_ outside
            · rw [Block.extend?_eq_none_iff]
              exact (openBlock_sort piece blanks sort).trans isTags
            · intro entry isFirst _
              have below := blanks_le_entriesAfter rest (blanks + 1) entry isFirst
              exact ⟨isTags, by omega⟩
          · rw [gather, extend?_blank_openBlock piece blanks isTags]
            exact inside sort piece opened (fun tags => absurd tags isTags)
      | some lineSort =>
          have inside := (ih restStores 0).2 lineSort
          have fresh := inside _ (openPiece_singleton lineStores found blanks) (fun _ => rfl)
          rw [← opening?_eq_openBlock found blanks] at fresh
          refine ⟨fresh, fun sort piece opened direct => ?_⟩
          by_cases same : sort = lineSort
          · subst same
            have longer := inside _ (opened.append lineStores found blanks direct) (fun _ => rfl)
            rw [gather, extend?_openBlock found piece opened.shown blanks]
            simpa using longer
          · refine opened.gather_close blanks line rest ?_ _ ?_ fresh
            · rw [Block.extend?_eq_none_iff, found, openBlock_sort]
              exact same
            · simpa using fun equal => absurd equal same

theorem bodyParts_pieces (baseIndent : Nat) (body : Text) :
    (bodyParts baseIndent body).map some =
      (pieces (entries (bodyLines baseIndent body))).map piecePart? :=
  (gather_pieces _ (fun line member => (read_normal baseIndent body line member).stores) 0).1

theorem bodyParts_eq_of_entries {baseIndent otherIndent : Nat} {body other : Text}
    (same : entries (bodyLines baseIndent body) = entries (bodyLines otherIndent other)) :
    bodyParts baseIndent body = bodyParts otherIndent other := by
  refine List.map_injective_iff.mpr (fun _ _ => Option.some.inj) ?_
  rw [bodyParts_pieces, bodyParts_pieces, same]

/-- The parts of a body are the pieces of its entries, and its lines are its entries with blank
lines above them and at the end. -/
theorem parse?_pieces (kind : Kind) (baseIndent : Nat) (body : Text)
    (small : baseIndent ≤ columnLimit - 5) :
    let lines := bodyLines baseIndent body
    ∃ parsed below, parse? kind baseIndent body = .ok parsed ∧
      lines = (entries lines).flatMap Entry.source ++ List.replicate below .blank ∧
      (pieces (entries lines)).flatten = entries lines ∧
      parsed.comment.parts.map some = (pieces (entries lines)).map piecePart? := by
  intro lines
  obtain ⟨parsed, read, comment⟩ := parse?_ok kind baseIndent body small
  obtain ⟨below, source⟩ := exists_source_entriesAfter lines 0
  refine ⟨parsed, below, read, by simpa [entries] using source, List.flatten_splitBy _ _, ?_⟩
  rw [comment]
  exact bodyParts_pieces baseIndent body

theorem parse?_pieces_mixed :
    let body := "\n@docs a, b\n@docs c\n \n@docs d\n\tx\n\n\t\n     y\nz\n\n".toList
    0 ≤ columnLimit - 5 ∧
      ∃ parsed, parse? .file 0 body = .ok parsed ∧
        parsed.comment.parts = [.tags [['a'], ['b'], ['c']], .tags [['d']],
          .code ['x', '\n', '\n', '\n', ' ', 'y'], .prose ['z']] := by
  intro body
  obtain ⟨parsed, _, read, -, -, parts⟩ := parse?_pieces .file 0 body (by decide)
  have cut : (pieces (entries (bodyLines 0 body))).map piecePart? =
      [.tags [['a'], ['b'], ['c']], .tags [['d']],
        .code ['x', '\n', '\n', '\n', ' ', 'y'], .prose ['z']].map some := by
    decide +kernel
  exact ⟨by decide, parsed, read,
    List.map_injective_iff.mpr (fun _ _ => Option.some.inj) (parts.trans cut)⟩

end CommentFormat
