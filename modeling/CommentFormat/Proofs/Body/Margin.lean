import CommentFormat.Proofs.Body.Pieces

/-! The margin: lines that are moved in together with the margin of their body are read as before. -/

namespace CommentFormat

/-- A line that is moved in by `count` columns; a blank one may stay where it is. -/
def MovedIn (count : Nat) (line moved : Text) : Prop :=
  moved = List.replicate count ' ' ++ line ∨ isBlank line = true ∧ moved = line

def TextMovedIn (count : Nat) (text moved : Text) : Prop :=
  List.Forall₂ (MovedIn count) (text.splitOn '\n') (moved.splitOn '\n')

instance (count : Nat) : DecidableRel (MovedIn count) := fun line moved =>
  inferInstanceAs (Decidable (moved = List.replicate count ' ' ++ line ∨
    isBlank line = true ∧ moved = line))

instance (count : Nat) : DecidableRel (TextMovedIn count) := fun text moved =>
  inferInstanceAs (Decidable (List.Forall₂ (MovedIn count) (text.splitOn '\n')
    (moved.splitOn '\n')))

/-! One line. -/

theorem takeWhile_isIndent_replicate (count : Nat) (line : Text) :
    (List.replicate count ' ' ++ line).takeWhile isIndent =
      List.replicate count ' ' ++ line.takeWhile isIndent :=
  List.takeWhile_append_of_pos (by simp [isIndent_space])

theorem detabFrom_replicate (count column : Nat) (line : Text) :
    detabFrom column (List.replicate count ' ' ++ line) =
      List.replicate count ' ' ++ detabFrom (column + count) line := by
  induction count generalizing column with
  | zero => simp
  | succ count ih =>
      rw [List.replicate_succ, List.cons_append, detabFrom, if_pos rfl, ih, List.cons_append]
      congr 3
      omega

theorem detabFrom_congr (line : Text) {column other : Nat}
    (same : column % indentStep = other % indentStep) :
    detabFrom column line = detabFrom other line := by
  induction line generalizing column other with
  | nil => rfl
  | cons first rest ih =>
      have next : (column + 1) % indentStep = (other + 1) % indentStep := by
        rw [indentStep] at same ⊢
        omega
      have stop : (column + (indentStep - other % indentStep)) % indentStep =
          (other + (indentStep - other % indentStep)) % indentStep := by
        rw [indentStep] at same ⊢
        omega
      simp only [detabFrom, ih next, ih stop, same]

theorem detab_replicate (count : Nat) (line : Text)
    (stops : indentStep ∣ count ∨ '\t' ∉ line.takeWhile isIndent) :
    detab (List.replicate count ' ' ++ line) = List.replicate count ' ' ++ detab line := by
  unfold detab detab?
  rw [takeWhile_isIndent_replicate]
  by_cases tab : '\t' ∈ line.takeWhile isIndent
  · have whole : count % indentStep = 0 % indentStep :=
      Nat.mod_eq_zero_of_dvd (stops.resolve_right (fun absent => absent tab))
    simp [tab, detabFrom_replicate, detabFrom_congr line whole]
  · simp [tab]

theorem Line.read_replicate (baseIndent count : Nat) (line : Text) :
    Line.read (baseIndent + count) (List.replicate count ' ' ++ line) =
      Line.read baseIndent line := by
  have indent : indentOf (List.replicate count ' ' ++ line) = count + indentOf line := by
    rw [indentOf, List.takeWhile_append_of_pos (by simp)]
    simp [indentOf]
  have cut (skipped : Nat) :
      (List.replicate count ' ' ++ line).drop (count + skipped) = line.drop skipped := by
    rw [← List.drop_drop, List.drop_left' (by simp)]
  have code : baseIndent + count + indentStep = count + (baseIndent + indentStep) := by omega
  have margin : min (count + indentOf line) (baseIndent + count) =
      count + min (indentOf line) baseIndent := by omega
  simp only [Line.read, isBlank_replicate_append, indent, code, margin, cut, Nat.add_le_add_iff_left]

theorem MovedIn.read {count : Nat} {line moved : Text} (movedIn : MovedIn count line moved)
    (stops : indentStep ∣ count ∨ '\t' ∉ line.takeWhile isIndent) (baseIndent : Nat) :
    Line.read (baseIndent + count) (detab moved) = Line.read baseIndent (detab line) := by
  rcases movedIn with rfl | ⟨blank, rfl⟩
  · rw [detab_replicate count line stops, Line.read_replicate]
  · have stays (margin : Nat) : Line.read margin (detab moved) = .blank := by
      rw [Line.read_eq_blank_iff, isBlank_detab, blank]
    rw [stays, stays]

/-! All lines. -/

theorem MovedIn.ended {count : Nat} {line moved : Text} (movedIn : MovedIn count line moved) :
    MovedIn count (dropReturn line) (dropReturn moved) := by
  rcases movedIn with rfl | ⟨blank, rfl⟩
  · exact .inl (dropReturn_append _ line (by simp))
  · exact .inr ⟨isBlank_dropReturn moved blank, rfl⟩

theorem endedLines_movedIn {count : Nat} {texts moved : List Text}
    (each : List.Forall₂ (MovedIn count) texts moved) :
    ∃ kept below, endedLines moved = kept ++ below ∧ (∀ line ∈ below, isBlank line = true) ∧
      List.Forall₂ (MovedIn count) (endedLines texts) kept := by
  induction each with
  | nil => exact ⟨[], [], rfl, by simp, .nil⟩
  | @cons first movedFirst rest movedRest movedIn restMoved ih =>
      cases restMoved with
      | nil =>
          by_cases empty : first = []
          · refine ⟨[], endedLines [movedFirst], rfl, ?_, by simp [endedLines, empty]⟩
            intro line member
            rw [eq_of_mem_endedLines_singleton movedFirst line member]
            rcases movedIn with rfl | ⟨blank, rfl⟩
            · rw [isBlank_replicate_append, empty, isBlank_nil]
            · exact blank
          · have movedShown : movedFirst ≠ [] := by
              rcases movedIn with rfl | ⟨-, rfl⟩ <;> simp [empty]
            refine ⟨[movedFirst], [], by simp [endedLines, movedShown], by simp, ?_⟩
            simpa [endedLines, empty] using movedIn
      | cons _ _ =>
          obtain ⟨kept, below, cut, blank, linesMoved⟩ := ih
          refine ⟨dropReturn movedFirst :: kept, below, ?_, blank, .cons movedIn.ended linesMoved⟩
          rw [endedLines, cut, List.cons_append]

theorem map_read_movedIn {count : Nat} {texts moved : List Text}
    (each : List.Forall₂ (MovedIn count) texts moved)
    (stops : ∀ line ∈ texts, indentStep ∣ count ∨ '\t' ∉ line.takeWhile isIndent)
    (baseIndent : Nat) :
    moved.map (fun line => Line.read (baseIndent + count) (detab line)) =
      texts.map fun line => Line.read baseIndent (detab line) := by
  induction each with
  | nil => rfl
  | cons movedIn _ ih =>
      rw [List.map_cons, List.map_cons, movedIn.read (stops _ (by simp)),
        ih fun line member => stops line (List.mem_cons_of_mem _ member)]

theorem bodyLines_movedIn (baseIndent count : Nat) (body moved : Text)
    (movedIn : TextMovedIn count body moved)
    (stops : indentStep ∣ count ∨ ∀ line ∈ lines body, '\t' ∉ line.takeWhile isIndent) :
    ∃ below, bodyLines (baseIndent + count) moved =
      bodyLines baseIndent body ++ List.replicate below .blank := by
  obtain ⟨kept, below, cut, blank, each⟩ := endedLines_movedIn movedIn
  have same := map_read_movedIn each
    (fun line member => stops.imp_right fun absent => absent line member) baseIndent
  refine ⟨below.length, ?_⟩
  rw [bodyLines, lines, cut, List.map_append, same, bodyLines, lines, List.append_cancel_left_eq]
  refine List.eq_replicate_iff.mpr ⟨by simp, ?_⟩
  intro line member
  obtain ⟨text, inBelow, rfl⟩ := List.mem_map.mp member
  rw [Line.read_eq_blank_iff, isBlank_detab, blank text inBelow]

/-- A body that is moved in with its margin has the parts it had before, if tabs still reach the
same stops. -/
theorem parse?_movedIn (kind : Kind) (baseIndent count : Nat) (body moved : Text)
    (small : baseIndent + count + 4 < columnLimit) (movedIn : TextMovedIn count body moved)
    (stops : 4 ∣ count ∨ ∀ line ∈ lines body, '\t' ∉ line.takeWhile isIndent) :
    ∃ parsed parsedMoved, parse? kind baseIndent body = .ok parsed ∧
      parse? kind (baseIndent + count) moved = .ok parsedMoved ∧
      parsedMoved.comment = parsed.comment := by
  obtain ⟨parsed, read, comment⟩ := parse?_ok kind baseIndent body (by omega)
  obtain ⟨parsedMoved, readMoved, commentMoved⟩ :=
    parse?_ok kind (baseIndent + count) moved (by omega)
  obtain ⟨below, longer⟩ := bodyLines_movedIn baseIndent count body moved movedIn stops
  refine ⟨parsed, parsedMoved, read, readMoved, ?_⟩
  have same : bodyParts (baseIndent + count) moved = bodyParts baseIndent body := by
    apply bodyParts_eq_of_entries
    rw [longer, entries, entriesAfter_append_blank, entries]
  rw [comment, commentMoved, same]

theorem parse?_movedIn_mixed :
    let body := "  \ta\n\n   @docs b\r\n".toList
    let moved := "      \ta\n\n       @docs b\r\n    ".toList
    0 + 4 + 4 < columnLimit ∧ TextMovedIn 4 body moved ∧ 4 ∣ 4 ∧
      ∃ parsed parsedMoved, parse? .doc 0 body = .ok parsed ∧
        parse? .doc (0 + 4) moved = .ok parsedMoved ∧ parsedMoved.comment = parsed.comment ∧
        parsedMoved.comment.parts = [.code ['a'], .tags [['b']]] := by
  intro body moved
  have movedIn : TextMovedIn 4 body moved := by decide
  obtain ⟨parsed, parsedMoved, read, readMoved, same⟩ :=
    parse?_movedIn .doc 0 4 body moved (by decide) movedIn (.inl (by decide))
  refine ⟨by decide, movedIn, by decide, parsed, parsedMoved, read, readMoved, same, ?_⟩
  have parts : (parse? .doc 0 body).map (·.comment.parts) = .ok [.code ['a'], .tags [['b']]] := by
    decide +kernel
  rw [read] at parts
  rw [same]
  exact Except.ok.inj parts

end CommentFormat
