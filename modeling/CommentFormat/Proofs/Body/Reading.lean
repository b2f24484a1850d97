import CommentFormat.Print
import CommentFormat.Proofs.Body.NormalForm
import Mathlib.Data.List.Forall2

/-! Blocks of lines with a blank line between each two, and the parts that they are read as. -/

namespace CommentFormat

/-! Lists that are related item by item. -/

theorem exists_of_mem_forall₂ {α β : Type} {related : α → β → Prop} {items : List α}
    {results : List β} (each : List.Forall₂ related items results) (result : β)
    (member : result ∈ results) : ∃ item ∈ items, related item result := by
  induction each with
  | nil => contradiction
  | @cons item first items results here behind ih =>
      rcases List.mem_cons.mp member with rfl | later
      · exact ⟨item, by simp, here⟩
      · obtain ⟨other, inItems, known⟩ := ih later
        exact ⟨other, List.mem_cons_of_mem item inItems, known⟩

theorem getLast?_forall₂ {α β : Type} {related : α → β → Prop} {items : List α}
    {results : List β} (each : List.Forall₂ related items results) (result : β)
    (last : result ∈ results.getLast?) : ∃ item ∈ items.getLast?, related item result := by
  induction each with
  | nil => contradiction
  | @cons item first items results here behind ih =>
      cases behind with
      | nil =>
          obtain rfl : first = result := by simpa using last
          exact ⟨item, rfl, here⟩
      | cons _ _ =>
          obtain ⟨other, isLast, known⟩ := ih (by simpa using last)
          exact ⟨other, by simpa using isLast, known⟩

/-! Reading blocks. -/

def readLine (line : Text) : Line :=
  Line.read 0 (detab line)

structure ReadsAs (block : List Text) (part : Part) : Prop where
  first : ∃ line rest, block = line :: rest ∧ (readLine line).sort? = some part.sort
  whole : ∃ opened : Block, opened.close = part ∧
    ∀ later, gather none (block.map readLine ++ later) = gather (some opened) later

theorem ReadsAs.nonempty {block : List Text} {part : Part} (reads : ReadsAs block part) :
    block ≠ [] := by
  obtain ⟨line, rest, cut, -⟩ := reads.first
  simp [cut]

theorem Block.close_extend?_blank {block longer : Block}
    (extended : block.extend? .blank = some longer) : longer.close = block.close := by
  cases block <;> simp only [Block.extend?, Option.some.injEq, reduceCtorEq] at extended <;>
    rw [← extended] <;>
    simp [Block.close, blockText]

theorem gather_blank (opened : Block) (later : List Line)
    (turns : ∀ line ∈ later.head?, ∃ sort, line.sort? = some sort ∧
      (opened.sort = sort → opened.sort = .tags)) :
    gather (some opened) (.blank :: later) = opened.close :: gather none later := by
  rw [gather]
  cases extended : opened.extend? .blank with
  | none => rfl
  | some longer =>
      have same := Block.close_extend?_blank extended
      have notTags : opened.sort ≠ .tags := by
        intro tags
        have refused := (Block.extend?_eq_none_iff opened .blank).mpr tags
        simp [extended] at refused
      cases later with
      | nil => simp [gather, same]
      | cons line rest =>
          obtain ⟨sort, lineSort, different⟩ := turns line (by simp)
          have ended : longer.extend? line = none := by
            rw [Block.extend?_eq_none_iff, lineSort, Block.extend?_sort extended]
            exact fun equal => notTags (different equal)
          simp [gather, ended, same]

theorem gather_blocks (blocks : List (List Text)) (parts : List Part)
    (reads : List.Forall₂ ReadsAs blocks parts) (apart : parts.IsChain Part.Apart) :
    gather none (([[]].intercalate blocks).map readLine) = parts := by
  induction reads with
  | nil => rfl
  | @cons block part restBlocks restParts blockReads restReads ih =>
      obtain ⟨opened, closed, leaves⟩ := blockReads.whole
      cases restReads with
      | nil =>
          have alone := leaves []
          simp only [List.append_nil] at alone
          simp [alone, gather, closed]
      | @cons next nextPart laterBlocks laterParts nextReads laterReads =>
          obtain ⟨line, rest, cut, lineSort⟩ := nextReads.first
          have rejoined := ih apart.tail
          have turns : ∀ head ∈ (([[]].intercalate (next :: laterBlocks)).map readLine).head?,
              ∃ sort, head.sort? = some sort ∧ (opened.sort = sort → opened.sort = .tags) := by
            intro head member
            have same : readLine line = head := by
              cases laterBlocks <;> simpa [cut] using member
            refine ⟨nextPart.sort, by rw [← same, lineSort], ?_⟩
            have order := apart.rel
            rwa [Part.Apart, ← closed, Block.close_sort] at order
          have blank : readLine [] = .blank := rfl
          rw [List.intercalate_cons_cons, List.append_assoc, List.map_append, leaves,
            List.singleton_append, List.map_cons, blank, gather_blank opened _ turns, closed,
            rejoined]

/-! Blocks of each sort. `grown` is the block after some of its items, and each of them is
shown as one line. -/

theorem gather_grown {α : Type} (grown : List α → Block) (shown : α → Text) (held more : List α)
    (step : ∀ earlier, ∀ item ∈ more,
      (grown earlier).extend? (readLine (shown item)) = some (grown (earlier ++ [item])))
    (later : List Line) :
    gather (some (grown held)) ((more.map shown).map readLine ++ later) =
      gather (some (grown (held ++ more))) later := by
  induction more generalizing held with
  | nil => simp
  | cons item rest ih =>
      have restStep := fun earlier other member =>
        step earlier other (List.mem_cons_of_mem item member)
      rw [List.map_cons, List.map_cons, List.cons_append, gather, step held item (by simp)]
      simpa using ih (held ++ [item]) restStep

theorem readsAs_of_grown {α : Type} (grown : List α → Block) (shown : α → Text) (items : List α)
    (nonempty : items ≠ [])
    (opens : ∀ item ∈ items.head?,
      Block.opening? (readLine (shown item)) = some (grown [item]))
    (step : ∀ earlier, ∀ item ∈ items,
      (grown earlier).extend? (readLine (shown item)) = some (grown (earlier ++ [item])))
    (keeps : (grown items).sort = (grown (items.take 1)).sort) :
    ReadsAs (items.map shown) (grown items).close := by
  obtain ⟨first, rest, cut⟩ := List.exists_cons_of_ne_nil nonempty
  have opening := opens first (by simp [cut])
  refine ⟨⟨shown first, rest.map shown, by simp [cut], ?_⟩, grown items, rfl, ?_⟩
  · rw [Block.opening?_sort opening, Block.close_sort, keeps, cut]
    simp
  · intro later
    rw [cut, List.map_cons, List.map_cons, List.cons_append, gather, opening]
    exact gather_grown grown shown [first] rest
      (fun earlier item member => step earlier item (by simp [cut, member])) later

theorem blockText_eq_joinLines (held : List Text) (last : ∀ line ∈ held.getLast?, line ≠ []) :
    blockText held = joinLines held := by
  have kept : held.rdropWhile List.isEmpty = held := by
    rw [List.rdropWhile_eq_self_iff]
    intro nonempty
    simpa using last _ (List.getLast?_eq_some_getLast nonempty)
  exact congrArg joinLines kept

theorem readsAs_prose (held : List Text) (lines : HeldLines IsProseLine held)
    (last : ∀ line ∈ held.getLast?, line ≠ []) : ReadsAs held (.prose (joinLines held)) := by
  obtain ⟨first, rest, cut, prose⟩ := lines.first
  have reads := readsAs_of_grown Block.prose id held (by simp [cut])
    (by simp [cut, readLine, read_prose_line first prose, Block.opening?])
    (fun earlier line member => by
      rcases lines.each line member with empty | shown
      · rw [empty]
        rfl
      · rw [id, readLine, read_prose_line line shown]
        rfl)
    rfl
  rwa [List.map_id, Block.close, blockText_eq_joinLines held last] at reads

def behindMargin (line : Text) : Text :=
  if line = [] then [] else margin ++ line

theorem not_mem_behindMargin (character : Char) (notSpace : character ≠ ' ') (line : Text)
    (lacks : character ∉ line) : character ∉ behindMargin line := by
  unfold behindMargin
  split
  · simp
  · simpa [margin, notSpace] using lacks

theorem readLine_behindMargin (line : Text) (code : IsCodeLine line) :
    readLine (behindMargin line) = .code line := by
  have shown : line ≠ [] := by
    intro empty
    have blank := code.shown
    simp [empty] at blank
  rw [behindMargin, if_neg shown]
  exact read_code_line line code

theorem readsAs_code (held : List Text) (lines : HeldLines IsCodeLine held)
    (last : ∀ line ∈ held.getLast?, line ≠ []) :
    ReadsAs (held.map behindMargin) (.code (joinLines held)) := by
  obtain ⟨first, rest, cut, code⟩ := lines.first
  have reads := readsAs_of_grown Block.code behindMargin held (by simp [cut])
    (by simp [cut, readLine_behindMargin first code, Block.opening?])
    (fun earlier line member => by
      rcases lines.each line member with empty | shown
      · rw [empty]
        rfl
      · rw [readLine_behindMargin line shown]
        rfl)
    rfl
  rwa [Block.close, blockText_eq_joinLines held last] at reads

theorem readsAs_tags (rests : List Text) (nonempty : rests ≠ [])
    (ending : ∀ rest ∈ rests, ∀ character ∈ rest.head?, isSpace character = true) :
    ReadsAs (rests.map (tagWord ++ ·)) (.tags (rests.flatMap tagNames)) := by
  have reads (rest : Text) (member : rest ∈ rests) : readLine (tagWord ++ rest) = .tags rest :=
    read_tag_line 0 rest (ending rest member)
  refine readsAs_of_grown (fun earlier => .tags (earlier.flatMap tagNames)) (tagWord ++ ·) rests
    nonempty ?_ ?_ rfl
  · intro rest member
    rw [reads rest (List.mem_of_mem_head? member)]
    simp [Block.opening?]
  · intro earlier rest member
    rw [reads rest member]
    simp [Block.extend?]

end CommentFormat
