import CommentFormat.Proofs.Body.NormalForm
import CommentFormat.Proofs.Text.Extent

/-! The extent of the parts of a body, which is bounded by the length of the body. -/

namespace CommentFormat

def namesExtent (names : List Text) : Nat :=
  7 * extent names

def Part.extent : Part → Nat
  | .prose text => text.length + 1
  | .code text => text.length + 5
  | .tags names => namesExtent names + 7

def partsExtent : List Part → Nat
  | [] => 0
  | part :: rest => part.extent + partsExtent rest

@[simp] theorem partsExtent_nil : partsExtent [] = 0 := rfl

@[simp] theorem partsExtent_cons (part : Part) (rest : List Part) :
    partsExtent (part :: rest) = part.extent + partsExtent rest := rfl

def Block.extent : Block → Nat
  | .prose held => CommentFormat.extent held + 1
  | .code held => CommentFormat.extent held + 5
  | .tags names => namesExtent names + 7

def Line.extent (line : Line) : Nat :=
  7 * (line.text.length + 2)

def linesExtent : List Line → Nat
  | [] => 0
  | line :: rest => line.extent + linesExtent rest

theorem length_trim_le (text : Text) : (trim text).length ≤ text.length :=
  (trim_sublist text).length_le

theorem extent_tagNames_le (rest : Text) : extent (tagNames rest) ≤ rest.length + 1 := by
  rw [← extent_splitOn ',' rest, tagNames]
  refine Nat.le_trans (extent_filter_le _ _) ?_
  induction rest.splitOn ',' with
  | nil => simp
  | cons piece pieces ih =>
      have shorter := length_trim_le piece
      rw [List.map_cons, extent_cons, extent_cons]
      omega

theorem Block.opening?_extent_le {line : Line} {block : Block}
    (opened : Block.opening? line = some block) : block.extent ≤ line.extent := by
  cases line with
  | blank => simp [Block.opening?] at opened
  | tags rest =>
      have names := extent_tagNames_le rest
      simp only [Block.opening?, Option.some.injEq] at opened
      simp only [← opened, Block.extent, namesExtent, Line.extent, Line.text]
      omega
  | code text =>
      simp only [Block.opening?, Option.some.injEq] at opened
      simp only [← opened, Block.extent, Line.extent, Line.text, extent_cons, extent_nil]
      omega
  | prose text =>
      simp only [Block.opening?, Option.some.injEq] at opened
      simp only [← opened, Block.extent, Line.extent, Line.text, extent_cons, extent_nil]
      omega

theorem Block.extend?_extent_le {line : Line} {block longer : Block}
    (extended : block.extend? line = some longer) :
    longer.extent ≤ block.extent + line.extent := by
  cases block <;> cases line <;>
    simp only [Block.extend?, Option.some.injEq, reduceCtorEq] at extended <;>
    simp only [← extended, Block.extent, namesExtent, Line.extent, Line.text, extent_append,
      extent_cons, extent_nil, List.length_nil]
  case tags.tags names rest =>
    have more := extent_tagNames_le rest
    omega
  all_goals omega

theorem Block.close_extent_le (block : Block) : block.close.extent ≤ block.extent := by
  have text_le (held : List Text) : (blockText held).length ≤ CommentFormat.extent held := by
    obtain ⟨dropped, cut⟩ := List.rdropWhile_prefix List.isEmpty held
    have kept := length_joinLines_le (held.rdropWhile List.isEmpty)
    rw [← cut, extent_append, cut]
    exact Nat.le_trans kept (Nat.le_add_right _ _)
  cases block with
  | prose held => exact Nat.add_le_add_right (text_le held) 1
  | code held => exact Nat.add_le_add_right (text_le held) 5
  | tags names => exact Nat.le_refl _

theorem opening?_extent_le (line : Line) :
    ((Block.opening? line).map Block.extent).getD 0 ≤ line.extent := by
  cases opened : Block.opening? line with
  | none => exact Nat.zero_le _
  | some block => exact Block.opening?_extent_le opened

theorem gather_extent_le (lines : List Line) (current : Option Block) :
    partsExtent (gather current lines) ≤
      (current.map Block.extent).getD 0 + linesExtent lines := by
  induction lines generalizing current with
  | nil =>
      cases current with
      | none => simp [gather, linesExtent]
      | some block => simpa [gather, linesExtent] using block.close_extent_le
  | cons line rest ih =>
      have opened := opening?_extent_le line
      have fresh := ih (Block.opening? line)
      rw [linesExtent]
      cases current with
      | none =>
          rw [gather]
          simp only [Option.map_none, Option.getD_none]
          omega
      | some block =>
          rw [gather]
          cases extended : block.extend? line with
          | some longer =>
              have grown := Block.extend?_extent_le extended
              have behind := ih (some longer)
              simp only [Option.map_some, Option.getD_some] at behind ⊢
              omega
          | none =>
              have closed := block.close_extent_le
              simp only [partsExtent_cons, Option.map_some, Option.getD_some]
              omega

theorem length_detabFrom_le (column : Nat) (line : Text) :
    (detabFrom column line).length ≤ indentStep * line.length := by
  induction line generalizing column with
  | nil => simp [detabFrom]
  | cons character rest ih =>
      rw [detabFrom]
      split
      · have behind := ih (column + 1)
        simp only [List.length_cons, indentStep] at behind ⊢
        omega
      · split
        · have behind := ih (column + (indentStep - column % indentStep))
          simp only [List.length_append, List.length_replicate, List.length_cons,
            indentStep] at behind ⊢
          omega
        · simp only [List.length_cons, indentStep]
          omega

theorem length_detab_le (line : Text) : (detab line).length ≤ indentStep * line.length := by
  unfold detab detab?
  split
  · exact length_detabFrom_le 0 line
  · simp only [Option.getD_none, indentStep]
    omega

theorem Line.extent_read_le (baseIndent : Nat) (line : Text) :
    (Line.read baseIndent (detab line)).extent ≤ 28 * (line.length + 1) := by
  have stored := (read_text_suffix baseIndent (detab line)).length_le
  have spaced := length_detab_le line
  simp only [Line.extent, indentStep] at *
  omega

theorem partsExtent_bodyParts_le (baseIndent : Nat) (body : Text) :
    partsExtent (bodyParts baseIndent body) ≤ 28 * (body.length + 1) := by
  have read (texts : List Text) :
      linesExtent (texts.map fun line => Line.read baseIndent (detab line)) ≤ 28 * extent texts := by
    induction texts with
    | nil => simp [linesExtent]
    | cons line rest ih =>
        have here := Line.extent_read_le baseIndent line
        simp only [List.map_cons, linesExtent, extent_cons]
        omega
  have gathered := gather_extent_le (bodyLines baseIndent body) none
  have cut := extent_lines_le body
  have total := read (lines body)
  simp only [Option.map_none, Option.getD_none] at gathered
  rw [bodyParts]
  unfold bodyLines at gathered ⊢
  omega

end CommentFormat
