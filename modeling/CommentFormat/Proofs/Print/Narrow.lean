import CommentFormat.Proofs.Layout.Narrow
import CommentFormat.Proofs.Print.Rows

/-! Comments on a narrower page: a comment whose printed lines all stay within it is printed there as
on the wide one. -/

namespace CommentFormat

/-! The documents that parts are printed from hold no text that breaks its line. -/

theorem Doc.join_unbroken (separator : Doc) (single : separator.unbroken = true) (docs : List Doc) :
    (Doc.join docs separator).unbroken = unbrokenAll docs := by
  rw [Doc.join, Doc.unbroken]
  induction docs with
  | nil => rfl
  | cons doc rest ih =>
      cases rest with
      | nil => rfl
      | cons next later => simp [unbrokenAll, single, ih]

theorem Doc.lines_unbroken_iff (texts : List Text) :
    (Doc.lines texts).unbroken = true ↔ ∀ text ∈ texts, '\n' ∉ text := by
  rw [Doc.lines, Doc.join_unbroken .hardLine rfl, unbrokenAll_iff]
  simp [Doc.unbroken]

theorem Begins.doc_unbroken {line : Text} {rest : List Text} {passage : Passage}
    {later : List Text} (begins : Begins line rest passage later) (shown : isBlank line = false)
    (single : ∀ source ∈ passage.source, '\n' ∉ source) : passage.doc.unbroken = true := by
  cases begins with
  | unclosed fence within => exact (Doc.lines_unbroken_iff _).mpr single
  | closed fence within closes => exact (Doc.lines_unbroken_iff _).mpr single
  | heading unfenced heads =>
      apply (onOneLine_iff _).mpr
      intro inside
      exact single line (by simp [Passage.source]) ((trimEnd_isPrefix line).subset inside)
  | @run more _ unfenced plain continues ended =>
      obtain ⟨lead, word, tail, opening⟩ := exists_opening line shown
      have items := not_mem_runItems opening more '\n' (by decide) single
      apply (unbrokenAll_iff _).mpr
      simpa [Doc.unbroken] using items

theorem passagesOf_unbroken (lines : List Text) (single : ∀ line ∈ lines, '\n' ∉ line) :
    ∀ passage ∈ passagesOf lines, passage.doc.unbroken = true := by
  induction lines using passagesOf_induction with
  | nil => simp [passagesOf]
  | blank line rest blank ih =>
      rw [passagesOf_blank line rest blank]
      exact ih fun other member => single other (List.mem_cons_of_mem line member)
  | passage line rest passage later shown begins ih =>
      rw [← begins.source_eq] at single
      have laterUnbroken := ih fun other member => single other (List.mem_append_right _ member)
      intro other member
      rw [begins.passagesOf_eq shown, List.cons_append, List.mem_cons, List.mem_append] at member
      rcases member with rfl | gap | behind
      · exact begins.doc_unbroken shown fun source inside =>
          single source (List.mem_append_left _ inside)
      · unfold gapBefore at gap
        split at gap
        · rw [List.mem_singleton.mp gap]
          rfl
        · contradiction
      · exact laterUnbroken other behind

theorem flowProse_unbroken (text : Text) : (flowProse text).unbroken = true := by
  rw [flowProse, Doc.join_unbroken .hardLine rfl, unbrokenAll_iff]
  intro doc member
  obtain ⟨passage, inText, rfl⟩ := List.mem_map.mp member
  rw [passages_eq] at inText
  exact passagesOf_unbroken (lines text) (newline_not_mem_lines text) passage inText

theorem verbatimDoc_unbroken (text : Text) : (verbatimDoc text).unbroken = true := by
  have single := separator_not_mem_of_mem_splitOn '\n' text
  rw [verbatimDoc, Doc.unbroken, Doc.join_unbroken .hardLine rfl, unbrokenAll_iff]
  intro doc member
  cases cut : text.splitOn '\n' with
  | nil => simp [cut, verbatimLines] at member
  | cons line rest =>
      rw [cut] at single
      rw [cut, verbatimLines, List.mem_cons, List.mem_map] at member
      rcases member with rfl | ⟨other, inRest, rfl⟩
      · have lineSingle := single line (by simp)
        split
        · rfl
        · simp [Doc.unbroken, lineSingle, margin]
      · have otherSingle := single other (List.mem_cons_of_mem line inRest)
        unfold lineDoc
        split
        · rfl
        · simpa [Doc.unbroken] using otherSingle

theorem ArrangedPart.doc_unbroken (part : ArrangedPart) :
    part.doc.unbroken = !part.breaksLine := by
  cases part with
  | prose text => exact flowProse_unbroken text
  | code text => exact verbatimDoc_unbroken text
  | tagLines lines =>
      rw [Bool.eq_iff_iff]
      simp [ArrangedPart.doc, ArrangedPart.breaksLine, Doc.lines_unbroken_iff]

theorem Arrangement.doc_unbroken (arrangement : Arrangement) :
    arrangement.doc.unbroken = !arrangement.parts.any ArrangedPart.breaksLine := by
  have lead : onOneLine openLead = true := by decide
  have close : onOneLine closeMark = true := by decide
  have parts : (Doc.join (arrangement.parts.map ArrangedPart.doc) blankLine).unbroken =
      !arrangement.parts.any ArrangedPart.breaksLine := by
    rw [Doc.join_unbroken blankLine rfl, Bool.eq_iff_iff, unbrokenAll_iff]
    simp [ArrangedPart.doc_unbroken]
  simp [Arrangement.doc, Doc.unbroken, unbrokenAll, parts, lead, close]

/-! Lines that stay within a page. -/

def LinesWithin (bound offset : Nat) (lines : List Text) : Prop :=
  ∀ reach ∈ mapFrom (fun column line => column + columns line) offset lines, reach ≤ bound

theorem linesWithin_append (bound offset : Nat) (block more : List Text) (shown : block ≠ []) :
    LinesWithin bound offset (block ++ more) ↔
      LinesWithin bound offset block ∧ LinesWithin bound 0 more := by
  obtain ⟨first, rest, rfl⟩ := List.exists_cons_of_ne_nil shown
  rw [LinesWithin, LinesWithin, LinesWithin, ← mapFrom_zero, List.cons_append, mapFrom, mapFrom,
    List.map_append, ← List.cons_append, List.forall_mem_append]

theorem linesWithin_singleton (bound offset : Nat) (line : Text) :
    LinesWithin bound offset [line] ↔ offset + columns line ≤ bound := by
  simp [LinesWithin, mapFrom]

theorem linesWithin_of_atLeastOne (bound offset : Nat) (lines : List Text)
    (within : LinesWithin bound offset (atLeastOne lines)) : LinesWithin bound offset lines := by
  cases lines with
  | nil => simp [LinesWithin, mapFrom]
  | cons line rest => exact within

theorem LinesWithin.mono {narrow wide offset : Nat} {lines : List Text} (less : narrow ≤ wide)
    (within : LinesWithin narrow offset lines) : LinesWithin wide offset lines :=
  fun reach member => Nat.le_trans (within reach member) less

theorem StaysWithin.lines {bound : Nat} {lead ending : Text} {lines : List Text}
    (within : StaysWithin bound (lead ++ (joinLines lines ++ '\n' :: ending)))
    (leadSingle : '\n' ∉ lead) (single : ∀ line ∈ lines, '\n' ∉ line) :
    LinesWithin bound (columns lead) lines := by
  cases lines with
  | nil => simp [LinesWithin, mapFrom]
  | cons first rest =>
      have singles : ∀ line ∈ (lead ++ first) :: rest, '\n' ∉ line := by
        simpa [leadSingle] using single
      rw [StaysWithin, ← List.append_assoc, ← joinLines_lead, List.splitOn_append_cons_self,
        splitOn_joinLines _ (by simp) singles] at within
      intro reach member
      rw [mapFrom, List.mem_cons, List.mem_map] at member
      rcases member with rfl | ⟨line, inRest, rfl⟩
      · have bound := within (lead ++ first) (by simp)
        simpa [columns] using bound
      · have bound := within line (by simp [inRest])
        simpa using bound

/-! Tag groups: every name goes on with its line, or starts the next one, on both pages. -/

theorem Room.startLine_take_used (width offset count : Nat) :
    ((Room.startLine width offset).take count).used = offset + count := by
  simp [Room.startLine, Room.ofWidth]

theorem packOnto_peak_le (bound width : Nat) (names : List Text) (room : Room) (line : Text)
    (offset : Nat) (column : room.used = offset + columns line)
    (within : LinesWithin bound offset (packOnto width room line names).lines) :
    room.used ≤ bound ∧ (packOnto width room line names).peak ≤ bound := by
  induction names generalizing room line offset with
  | nil =>
      have here := (linesWithin_singleton bound offset line).mp within
      exact ⟨by omega, Nat.zero_le bound⟩
  | cons name rest ih =>
      rw [packOnto] at within ⊢
      by_cases fits : room.fits (columns (nameSeparator ++ name)) = true
      · simp only [if_pos fits, Packing.reaching] at within ⊢
        have grown : (room.take (columns (nameSeparator ++ name))).used =
            offset + columns (line ++ (nameSeparator ++ name)) := by
          simp only [Room.take_used, column, columns, List.length_append]
          omega
        obtain ⟨reached, peak⟩ := ih _ _ offset grown within
        have before : room.used ≤ bound := by
          rw [Room.take_used] at reached
          omega
        exact ⟨before, Nat.max_le.mpr ⟨reached, peak⟩⟩
      · simp only [if_neg fits, Packing.reaching, Packing.afterLine] at within ⊢
        rw [← List.singleton_append, linesWithin_append _ _ _ _ (by simp),
          linesWithin_singleton] at within
        obtain ⟨reached, peak⟩ := ih _ _ 0 (Room.startLine_take_used width 0 _) within.2
        exact ⟨by omega, Nat.max_le.mpr ⟨reached, peak⟩⟩

theorem ofNames_peak_le (bound width offset : Nat) (name : Text) (rest : List Text)
    (within : LinesWithin bound offset (Packing.ofNames width offset (name :: rest)).lines) :
    (Packing.ofNames width offset (name :: rest)).peak ≤ bound := by
  obtain ⟨stays, peak⟩ := packOnto_peak_le bound width rest _ _ offset
    (Room.startLine_take_used width offset _) within
  exact Nat.max_le.mpr ⟨stays, peak⟩

theorem packOnto_overlong (width : Nat) (names : List Text) (room : Room) (line : Text)
    (within : (packOnto width room line names).peak ≤ width) :
    (packOnto width room line names).overlong = [] := by
  induction names generalizing room line with
  | nil => rfl
  | cons name rest ih =>
      rw [packOnto] at within ⊢
      by_cases fits : room.fits (columns (nameSeparator ++ name)) = true
      · simp only [if_pos fits] at within ⊢
        obtain ⟨stays, peak⟩ := Nat.max_le.mp within
        rw [Packing.reaching, if_neg (Nat.not_lt.mpr stays), ih _ _ peak]
        rfl
      · simp only [if_neg fits] at within ⊢
        obtain ⟨stays, peak⟩ := Nat.max_le.mp within
        rw [Packing.reaching, if_neg (Nat.not_lt.mpr stays), Packing.afterLine, ih _ _ peak]
        rfl

theorem ofNames_overlong (width offset : Nat) (names : List Text)
    (within : LinesWithin width offset (Packing.ofNames width offset names).lines) :
    (Packing.ofNames width offset names).overlong = [] := by
  cases names with
  | nil => rfl
  | cons name rest =>
      obtain ⟨stays, peak⟩ := Nat.max_le.mp (ofNames_peak_le width width offset name rest within)
      rw [Packing.ofNames, Packing.reaching, if_neg (Nat.not_lt.mpr stays),
        packOnto_overlong width rest _ _ peak]
      rfl

section Narrow

variable {wide narrow : Nat} (less : narrow ≤ wide)

include less

theorem Packing.reaching_narrow (packing : Packing) (name : Text) (room : Room)
    (stays : room.used ≤ narrow) :
    packing.reaching narrow name (room.onPage narrow) = packing.reaching wide name room := by
  have inNarrow : ¬ narrow < room.used := by omega
  have inWide : ¬ wide < room.used := by omega
  simp [Packing.reaching, inNarrow, inWide]

theorem packOnto_narrow (names : List Text) (room : Room) (line : Text) (on : room.On wide)
    (within : (packOnto wide room line names).peak ≤ narrow) :
    packOnto narrow (room.onPage narrow) line names = packOnto wide room line names := by
  induction names generalizing room line with
  | nil => rfl
  | cons name rest ih =>
      have free : room.free = wide - room.used := on
      rw [packOnto, packOnto]
      rw [packOnto] at within
      by_cases fits : room.fits (columns (nameSeparator ++ name)) = true
      · simp only [if_pos fits] at within
        obtain ⟨stays, peak⟩ := Nat.max_le.mp within
        have fitsNarrow : (room.onPage narrow).fits (columns (nameSeparator ++ name)) = true := by
          rw [Room.take_used] at stays
          rw [Room.fits_iff, Room.onPage_free]
          omega
        simp only [if_pos fits, if_pos fitsNarrow, Room.take_onPage]
        rw [ih _ _ (Room.take_on wide room _ on) peak, Packing.reaching_narrow less _ name _ stays]
      · simp only [if_neg fits] at within
        obtain ⟨stays, peak⟩ := Nat.max_le.mp within
        have fullNarrow : ¬ (room.onPage narrow).fits (columns (nameSeparator ++ name)) = true := by
          rw [Room.fits_iff] at fits ⊢
          rw [Room.onPage_free]
          omega
        simp only [if_neg fits, if_neg fullNarrow, ← Room.startLine_onPage narrow wide 0,
          Room.take_onPage]
        rw [ih _ _ (Room.take_on wide _ _ (Room.startLine_on wide 0)) peak,
          Packing.reaching_narrow less _ name _ stays]

theorem ofNames_narrow (offset : Nat) (names : List Text)
    (within : LinesWithin narrow offset (Packing.ofNames wide offset names).lines) :
    Packing.ofNames narrow offset names = Packing.ofNames wide offset names := by
  cases names with
  | nil => rfl
  | cons name rest =>
      obtain ⟨stays, peak⟩ := Nat.max_le.mp (ofNames_peak_le narrow wide offset name rest within)
      have on := Room.take_on wide _ (columns (tagOpening ++ name)) (Room.startLine_on wide offset)
      rw [Packing.ofNames, Packing.ofNames, ← Room.startLine_onPage narrow wide offset,
        Room.take_onPage, packOnto_narrow less rest _ _ on peak,
        Packing.reaching_narrow less _ name _ stays]

/-! Parts. -/

theorem arrangePart_narrow (offset : Nat) (part : Part)
    (within : LinesWithin narrow offset (part.printedLines wide offset)) :
    arrangePart narrow offset part = arrangePart wide offset part := by
  cases part with
  | prose text => rfl
  | code text => rfl
  | tags names =>
      have same := ofNames_narrow less offset names within
      have none := ofNames_overlong wide offset names (within.mono less)
      simp [arrangePart, same, overlongReports, none]

theorem arrangeMerged_narrow (parts : List Part) (offset : Nat)
    (within : LinesWithin narrow offset
      ([[]].intercalate (mapFrom (Part.blockLines wide) offset parts))) :
    arrangeMerged narrow offset parts = arrangeMerged wide offset parts := by
  induction parts generalizing offset with
  | nil => rfl
  | cons part rest ih =>
      have each : LinesWithin narrow offset (part.blockLines wide offset) ∧
          LinesWithin narrow 0 ([[]].intercalate (mapFrom (Part.blockLines wide) 0 rest)) := by
        cases rest with
        | nil => exact ⟨by simpa [mapFrom] using within, by simp [mapFrom, LinesWithin]⟩
        | cons next later =>
            rw [mapFrom, List.map_cons, List.intercalate_cons_cons, List.append_assoc,
              linesWithin_append _ _ _ _ (part.blockLines_ne_nil wide offset),
              linesWithin_append _ _ [[]] _ (by simp), ← List.map_cons, mapFrom_zero] at within
            exact ⟨within.1, within.2.2⟩
      have here := arrangePart_narrow less offset part (linesWithin_of_atLeastOne _ _ _ each.1)
      rw [arrangeMerged, arrangeMerged, here, ih 0 each.2]

/-! Comments. -/

variable {kind : Kind} (comment : Comment kind)
  (unbroken : ∀ part ∈ comment.parts, part.Unbroken)
  (within : StaysWithin narrow (comment.printed wide).text)

include unbroken within

theorem Comment.arrangement_narrow : comment.arrangement narrow = comment.arrangement wide := by
  have single := newline_not_mem_blocks wide (mergeTags comment.parts)
    (mergeTags_unbroken comment.parts unbroken) (columns openLead)
  rw [comment.printed_text_eq wide] at within
  have lines := within.lines (by decide) single
  exact arrangeMerged_narrow less (mergeTags comment.parts) (columns openLead)
    (linesWithin_of_atLeastOne _ _ _ lines)

theorem Comment.drawn_narrow : comment.drawn narrow = (comment.drawn wide).onPage narrow := by
  have single : (comment.arrangement wide).doc.unbroken = true := by
    rw [Arrangement.doc_unbroken, comment.arrangement_unbroken wide unbroken]
    rfl
  rw [Comment.drawn, Comment.arrangement_narrow less comment unbroken within]
  exact Doc.lay_onPage less _ single within

end Narrow

theorem Comment.print?_eq_ok_iff {kind : Kind} (comment : Comment kind) (page : Page)
    (printed : Printed) :
    comment.print? page = .ok printed ↔
      (comment.arrangement page.width).peak < columnLimit ∧
        (comment.arrangement page.width).parts.any ArrangedPart.breaksLine = false ∧
        (comment.drawn page.width).peak < columnLimit ∧
        comment.printed page.width = printed := by
  simp only [Comment.print?]
  split
  · next exceeds => simp [Nat.not_lt.mpr exceeds]
  · next kept =>
      split
      · next broken => simp [broken]
      · next whole =>
          rw [withinColumns_eq_ok_iff]
          simp [Nat.not_le.mp kept, Bool.eq_false_iff.mpr whole]

/-- A page may be narrowed to what its text stays within: the documents and the comments on it are
rendered and printed as before. -/
theorem same_on_narrower_page {wide narrow : Nat} (less : narrow ≤ wide) :
    (∀ doc : Doc, doc.unbroken = true → ∀ text, doc.render? ⟨wide⟩ = .ok text →
        StaysWithin narrow text → doc.render? ⟨narrow⟩ = .ok text) ∧
      ∀ (kind : Kind) (comment : Comment kind), (∀ part ∈ comment.parts, part.Unbroken) →
        ∀ printed, comment.print? ⟨wide⟩ = .ok printed → StaysWithin narrow printed.text →
          ∃ again, comment.print? ⟨narrow⟩ = .ok again ∧ again.text = printed.text ∧
            again.groups = printed.groups := by
  constructor
  · intro doc unbroken text rendered within
    obtain ⟨kept, rfl⟩ := (doc.render?_eq_ok_iff _ _).mp rendered
    have same := doc.lay_onPage less unbroken within
    rw [Doc.render?_eq_ok_iff, same]
    exact ⟨kept, rfl⟩
  · intro kind comment unbroken printed ok within
    obtain ⟨arranged, whole, kept, rfl⟩ := (comment.print?_eq_ok_iff _ _).mp ok
    have arrangement := Comment.arrangement_narrow less comment unbroken within
    have drawn := Comment.drawn_narrow less comment unbroken within
    refine ⟨comment.printed narrow, (comment.print?_eq_ok_iff _ _).mpr ?_, ?_, ?_⟩
    · rw [arrangement, drawn]
      exact ⟨arranged, whole, kept, rfl⟩
    · simp only [Comment.printed, drawn]
      rfl
    · simp only [Comment.printed, arrangement]

theorem same_on_page_of_fourteen :
    let doc : Doc := .fill [.text ['a', 'b', 'c', 'd'],
      .group (.concat [.text ['e'], .softLine, .text ['f']]), .text ['g', 'h', 'i', 'j', 'k']]
    let comment : Comment .doc := ⟨[.tags [['a'], ['b']], .tags [['c', 'd']],
      .prose ['e', ' ', 'f', '\n', 'g']]⟩
    let line : Text := ['a', 'b', 'c', 'd', ' ', 'e', ' ', 'f', ' ', 'g', 'h', 'i', 'j', 'k']
    doc.render? ⟨17⟩ = .ok line ∧ StaysWithin 14 line ∧ doc.render? ⟨14⟩ = .ok line ∧
      comment.print? ⟨17⟩ = .ok (comment.printed 17) ∧
      StaysWithin 14 (comment.printed 17).text ∧
      ∃ again, comment.print? ⟨14⟩ = .ok again ∧ again.text = (comment.printed 17).text ∧
        again.groups = (comment.printed 17).groups := by
  intro doc comment line
  have both := same_on_narrower_page (show 14 ≤ 17 by decide)
  have rendered : doc.render? ⟨17⟩ = .ok line := by decide +kernel
  have lineStays : StaysWithin 14 line := by decide
  have unbroken : ∀ part ∈ comment.parts, part.Unbroken := by simp [comment, Part.Unbroken]
  have printed : comment.print? ⟨17⟩ = .ok (comment.printed 17) := by decide +kernel
  have stays : StaysWithin 14 (comment.printed 17).text := by decide +kernel
  exact ⟨rendered, lineStays, both.1 doc rfl line rendered lineStays, printed, stays,
    both.2 .doc comment unbroken _ printed stays⟩

end CommentFormat
