import CommentFormat.Proofs.Print.Narrow

/-! Filling: names are packed on tag lines as a fill of names with their commas is laid out. The
opening of a tag line is longer than the comma behind its last name by the columns that the page
of the fill is narrower. -/

namespace CommentFormat

def withComma (name : Text) : Text :=
  name ++ [',']

/-- Names with their commas as a fill, behind text that the first line starts with. -/
def commaFill (lead : Text) (names : List Text) : Doc :=
  .concat [.text lead, Doc.words (names.map withComma)]

/-! A tag line opens with six columns and a fill ends each line with a comma: five columns apart. -/

theorem columns_opened (name : Text) :
    columns (tagOpening ++ name) = (withComma name).length + 5 := by
  simp [columns, tagOpening, tagWord, withComma]

theorem columns_separated (name : Text) :
    columns (nameSeparator ++ name) = 1 + (withComma name).length := by
  simp [columns, nameSeparator, withComma]
  omega

theorem exists_packFrom_wrapFrom (width : Nat) (names : List Text) (content : Text)
    (column : Nat) :
    ∃ first rest,
      wrapFrom (width - 5) (withComma content) column (names.map withComma) =
        (first :: rest).map withComma ∧
      packFrom width nameSeparator tagOpening (tagOpening ++ content) (column + 5) names =
        (first :: rest).map (tagOpening ++ ·) := by
  induction names generalizing content column with
  | nil => exact ⟨content, [], rfl, rfl⟩
  | cons name names ih =>
      rw [List.map_cons, wrapFrom, packFrom, columns_separated, columns_opened]
      -- On a page of less than five columns the fill has none, and both start a line.
      by_cases beside : column + 1 + (withComma name).length ≤ width - 5
      · obtain ⟨first, rest, wrapped, packed⟩ :=
          ih (content ++ nameSeparator ++ name) (column + 1 + (withComma name).length)
        refine ⟨first, rest, ?_, ?_⟩
        · rw [if_pos beside, ← wrapped]
          simp [withComma, nameSeparator]
        · rw [if_pos (by omega), ← packed]
          congr 1
          · simp
          · omega
      · obtain ⟨first, rest, wrapped, packed⟩ := ih name (withComma name).length
        refine ⟨content, first :: rest, ?_, ?_⟩
        · rw [if_neg beside, wrapped]
          rfl
        · rw [if_neg (by omega), packed]
          rfl

theorem exists_ofNames_wrapItems (width offset : Nat) (names : List Text) (shown : names ≠ []) :
    ∃ first rest,
      wrapItems (width - 5) offset (names.map withComma) = (first :: rest).map withComma ∧
      (Packing.ofNames width offset names).lines = (first :: rest).map (tagOpening ++ ·) := by
  obtain ⟨name, names, rfl⟩ := List.exists_cons_of_ne_nil shown
  obtain ⟨first, rest, wrapped, packed⟩ :=
    exists_packFrom_wrapFrom width names name (offset + (withComma name).length)
  have lines := packOnto_lines width names _ (tagOpening ++ name)
    (Room.take_on width _ (columns (tagOpening ++ name)) (Room.startLine_on width offset))
  have reach : offset + columns (tagOpening ++ name) = offset + (withComma name).length + 5 := by
    rw [columns_opened, Nat.add_assoc]
  rw [Room.startLine_take_used, reach, packed] at lines
  exact ⟨first, rest, wrapped, lines⟩

/-! No column of the fill is larger than the largest one of the packing. -/

theorem Cursor.peak_text_le {cursor : Cursor} {width column : Nat} (placed : cursor.At width column)
    (content : Text) : (cursor.text content).peak ≤ column + content.length := by
  rw [Cursor.text]
  split
  · exact Nat.zero_le _
  · simp [Cursor.draw, placed.used, columns]

theorem drawItems_peak_le (width : Nat) (names : List Text) (cursor : Cursor) (column : Nat)
    (placed : cursor.At (width - 5) column) (room : Room) (on : room.On width)
    (used : room.used = column + 5) (line : Text) :
    (drawItems (width - 5) 0 .broken cursor ((names.map withComma).map .text)).peak ≤
      (packOnto width room line names).peak := by
  induction names generalizing cursor column room line with
  | nil => exact Nat.le_refl 0
  | cons name names ih =>
      have measured : columns (withComma name) = (withComma name).length := rfl
      have beside := placed.fits_iff (withComma name)
      have fits : room.fits (columns (nameSeparator ++ name)) = true ↔
          column + 1 + (withComma name).length ≤ width - 5 := by
        rw [Room.On, used] at on
        simp only [Room.fits, on, decide_eq_true_eq, columns_separated]
        omega
      rw [List.map_cons, List.map_cons, packOnto]
      by_cases goesOn : column + 1 + (withComma name).length ≤ width - 5
      · have taken : (room.take (columns (nameSeparator ++ name))).used =
            column + 1 + (withComma name).length + 5 := by
          rw [Room.take_used, used, columns_separated]
          omega
        have behind := ih _ _ (placed.space.text (withComma name)) _
          (Room.take_on width room (columns (nameSeparator ++ name)) on) taken
          (line ++ (nameSeparator ++ name))
        have space : cursor.space.peak = column + 1 := by
          simp [Cursor.space, Cursor.draw, placed.used]
        have text := Cursor.peak_text_le placed.space (withComma name)
        rw [if_pos (fits.mpr goesOn),
          drawItems_beside (width - 5) 0 cursor (withComma name) _ (beside.mpr goesOn)]
        simp only [Drawn.followedBy, Drawn.forming, Packing.reaching, space, taken]
        omega
      · have taken : ((Room.startLine width 0).take (columns (tagOpening ++ name))).used =
            0 + (withComma name).length + 5 := by
          rw [Room.startLine_take_used, columns_opened]
          omega
        have behind := ih _ _ ((lineStart_at (width - 5)).text (withComma name)) _
          (Room.take_on width _ (columns (tagOpening ++ name)) (Room.startLine_on width 0)) taken
          (tagOpening ++ name)
        have text := Cursor.peak_text_le (lineStart_at (width - 5)) (withComma name)
        rw [if_neg (mt fits.mp goesOn),
          drawItems_below (width - 5) 0 cursor (withComma name) _ (mt beside.mp goesOn)]
        simp only [Drawn.followedBy, Drawn.forming, newLine, Packing.reaching, Packing.afterLine,
          taken]
        omega

theorem drawFill_peak_le (width : Nat) (cursor : Cursor) (offset : Nat)
    (placed : cursor.At (width - 5) offset) (names : List Text) :
    (drawFill (width - 5) 0 .broken cursor ((names.map withComma).map .text)).peak ≤
      (Packing.ofNames width offset names).peak := by
  cases names with
  | nil => exact Nat.zero_le _
  | cons name names =>
      have measured : columns (withComma name) = (withComma name).length := rfl
      have taken : ((Room.startLine width offset).take (columns (tagOpening ++ name))).used =
          offset + (withComma name).length + 5 := by
        rw [Room.startLine_take_used, columns_opened]
        omega
      have behind := drawItems_peak_le width names _ _ (placed.text (withComma name)) _
        (Room.take_on width _ (columns (tagOpening ++ name)) (Room.startLine_on width offset)) taken
        (tagOpening ++ name)
      have text := Cursor.peak_text_le placed (withComma name)
      rw [List.map_cons, List.map_cons, drawFill]
      simp only [Room.choose, Doc.flatColumns, Doc.flatPeak, Drawn.followedBy, Drawn.forming,
        Doc.drawAt, Packing.ofNames, Packing.reaching, taken]
      omega

theorem offset_le_peak (width offset : Nat) (names : List Text) :
    offset ≤ (Packing.ofNames width offset names).peak := by
  cases names with
  | nil => exact Nat.le_refl offset
  | cons name rest =>
      have reached := Room.startLine_take_used width offset (columns (tagOpening ++ name))
      simp only [Packing.ofNames, Packing.reaching, reached]
      omega

theorem commaFill_lay (width offset : Nat) (lead : Text) (wide : columns lead = offset)
    (names : List Text) :
    ((commaFill lead names).lay (width - 5)).peak ≤ (Packing.ofNames width offset names).peak ∧
      written ((commaFill lead names).lay (width - 5)).strokes =
        lead ++ joinLines (wrapItems (width - 5) offset (names.map withComma)) := by
  have start := start_at (width - 5)
  have led := start.text lead
  rw [Nat.zero_add, show lead.length = offset from wide] at led
  have leadPeak := Cursor.peak_text_le start lead
  have fillPeak := drawFill_peak_le width _ offset led names
  have reached := offset_le_peak width offset names
  have leadText := Doc.writes_text_flush (width - 5) 0 _ lead start.flush
  have fillText := Doc.writes_words (width - 5) (names.map withComma) _ offset led
  rw [Doc.lay_eq_drawAt]
  constructor
  · simp only [commaFill, Doc.words, Doc.drawAt, drawAll, Drawn.followedBy, Drawn.still]
    have measured : columns lead = lead.length := rfl
    omega
  · rw [Doc.writes, Doc.drawAt] at leadText
    rw [Doc.writes] at fillText
    simp [commaFill, Doc.drawAt, drawAll, Drawn.followedBy, Drawn.still, leadText, fillText]

theorem lines_withComma (contents : List Text) (shown : contents ≠ [])
    (single : ∀ line ∈ contents.map withComma, '\n' ∉ line) :
    lines (joinLines (contents.map withComma)) = contents.map withComma := by
  rw [lines, splitOn_joinLines _ (by simpa using shown) single]
  refine endedLines_eq_self _ ?_ ?_
  · intro line member
    obtain ⟨content, -, rfl⟩ := List.mem_map.mp member
    simp [withComma, dropReturn]
  · intro line last
    obtain ⟨content, -, rfl⟩ := List.mem_map.mp (List.mem_of_getLast? last)
    simp [withComma]

/-- Names are packed behind `offset` columns on the lines of a fill on a page that is five columns
narrower: the content of each line stands behind the opening of a tag line and before a comma. -/
theorem ofNames_eq_fill (width offset : Nat) (lead : Text) (names : List Text)
    (wide : columns lead = offset) (leadSingle : '\n' ∉ lead) (shown : names ≠ [])
    (single : ∀ name ∈ names, '\n' ∉ name)
    (kept : (Packing.ofNames width offset names).peak < columnLimit) :
    ∃ text first rest, (commaFill lead names).render? ⟨width - 5⟩ = .ok text ∧
      lines text = ((lead ++ first) :: rest).map withComma ∧
      (Packing.ofNames width offset names).lines = (first :: rest).map (tagOpening ++ ·) := by
  obtain ⟨peak, text⟩ := commaFill_lay width offset lead wide names
  obtain ⟨first, rest, wrapped, packed⟩ := exists_ofNames_wrapItems width offset names shown
  have wrappedSingle := not_mem_wrapItems '\n' (by decide) (width - 5) offset (names.map withComma)
    (by simpa [withComma] using single)
  have regrouped : lead ++ joinLines ((first :: rest).map withComma) =
      joinLines (((lead ++ first) :: rest).map withComma) := by
    rw [List.map_cons, ← joinLines_lead]
    simp [withComma]
  rw [wrapped, regrouped] at text
  rw [wrapped] at wrappedSingle
  refine ⟨_, first, rest, (Doc.render?_eq_ok_iff _ _ _).mpr ⟨Nat.lt_of_le_of_lt peak kept, text⟩,
    lines_withComma _ (by simp) ?_, packed⟩
  simpa [withComma, leadSingle] using wrappedSingle

theorem ofNames_eq_fill_narrow :
    let lead : Text := ['l', 'e', 'a', 'd']
    let names : List Text := [['a', 'b'], [], "toolongname".toList, "c,d\r".toList, ['e']]
    columns lead = 4 ∧ '\n' ∉ lead ∧ names ≠ [] ∧ (∀ name ∈ names, '\n' ∉ name) ∧
      (Packing.ofNames 14 4 names).peak < columnLimit ∧
      ∃ text first rest, (commaFill lead names).render? ⟨9⟩ = .ok text ∧
        lines text = ((lead ++ first) :: rest).map withComma ∧
        (first :: rest).map (tagOpening ++ ·) = ["@docs ab, ".toList, "@docs toolongname".toList,
          "@docs c,d\r, e".toList] := by
  intro lead names
  have single : ∀ name ∈ names, '\n' ∉ name := by decide
  have kept : (Packing.ofNames 14 4 names).peak < columnLimit := by decide +kernel
  have packed : (Packing.ofNames 14 4 names).lines = ["@docs ab, ".toList,
      "@docs toolongname".toList, "@docs c,d\r, e".toList] := by decide +kernel
  obtain ⟨text, first, rest, render, cut, same⟩ :=
    ofNames_eq_fill 14 4 lead names rfl (by decide) (by decide) single kept
  exact ⟨rfl, by decide, by decide, single, kept, text, first, rest, render, cut,
    same.symm.trans packed⟩

end CommentFormat
