import CommentFormat.Proofs.Body.Extent
import CommentFormat.Proofs.Layout.Reach
import CommentFormat.Proofs.Print.Blocks

/-! How far a printed comment reaches: no column number formed on the way is much larger than the
number of its characters and names. -/

namespace CommentFormat

/-! Documents. -/

theorem spreadAll_intersperse (separator : Doc) (narrow : separator.spread = 0) (docs : List Doc) :
    spreadAll (docs.intersperse separator) = spreadAll docs := by
  induction docs with
  | nil => rfl
  | cons doc rest ih =>
      cases rest with
      | nil => rfl
      | cons next later =>
          simp only [List.intersperse_cons_cons, spreadAll, narrow] at ih ⊢
          omega

theorem nestingAll_intersperse_le (separator : Doc) (flat : separator.nesting = 0)
    (docs : List Doc) (limit : Nat) (each : ∀ doc ∈ docs, doc.nesting ≤ limit) :
    nestingAll (docs.intersperse separator) ≤ limit := by
  induction docs with
  | nil => simp [nestingAll]
  | cons doc rest ih =>
      have here := each doc (by simp)
      have behind := ih fun other member => each other (List.mem_cons_of_mem doc member)
      cases rest with
      | nil => simpa [nestingAll] using here
      | cons next later =>
          simp only [List.intersperse_cons_cons, nestingAll, flat] at behind ⊢
          omega

theorem spreadAll_texts (texts : List Text) :
    spreadAll (texts.map .text) + texts.length = extent texts := by
  induction texts with
  | nil => rfl
  | cons text rest ih =>
      simp only [List.map_cons, spreadAll, Doc.spread, columns, List.length_cons, extent_cons]
      omega

theorem nestingAll_texts (texts : List Text) : nestingAll (texts.map .text) = 0 := by
  induction texts with
  | nil => rfl
  | cons text rest ih => simp [nestingAll, Doc.nesting, ih]

theorem Doc.lines_spread_le (texts : List Text) : (Doc.lines texts).spread ≤ extent texts := by
  have total := spreadAll_texts texts
  rw [Doc.lines, Doc.join, Doc.spread, spreadAll_intersperse _ rfl]
  omega

theorem Doc.lines_nesting (texts : List Text) : (Doc.lines texts).nesting = 0 := by
  refine Nat.le_zero.mp (nestingAll_intersperse_le _ rfl _ 0 ?_)
  simp [Doc.nesting]

theorem Doc.words_spread_le (items : List Text) : (Doc.words items).spread ≤ extent items := by
  have total := spreadAll_texts items
  rw [Doc.words, Doc.spread, List.length_map]
  omega

theorem Doc.words_nesting (items : List Text) : (Doc.words items).nesting = 0 :=
  nestingAll_texts items

/-! Parts. -/

theorem extent_itemsFrom (item : Text) (rest : List Text) :
    extent (itemsFrom item rest) = item.length + 1 + extent rest := by
  induction rest generalizing item with
  | nil => simp [itemsFrom]
  | cons word rest ih =>
      rw [itemsFrom]
      split
      · rw [ih, extent_cons, List.length_append, List.length_cons]
        omega
      · rw [extent_cons, ih, extent_cons]

theorem extent_runItems_le {line lead word tail : Text} (opening : Opening line lead word tail)
    (more : List Text) : extent (runItems (line :: more)) ≤ extent (line :: more) := by
  have moreWords := extent_flatMap_words_le more
  have tailWords : extent (words tail) ≤ tail.length := by
    cases tail with
    | nil => simp
    | cons character rest =>
        rw [words_cons_space character rest (opening.ending character (by simp))]
        exact extent_words_le rest
  rw [runItems_eq opening more, extent_itemsFrom, extent_append, extent_cons, opening.cut]
  simp only [List.length_append]
  omega

theorem Begins.doc_spread_le {line : Text} {rest : List Text} {passage : Passage}
    {later : List Text} (begins : Begins line rest passage later) (shown : isBlank line = false) :
    passage.doc.spread ≤ extent passage.source := by
  cases begins with
  | unclosed fence within => exact Doc.lines_spread_le _
  | closed fence within closes => exact Doc.lines_spread_le _
  | heading unfenced heads =>
      have shorter := (trimEnd_isPrefix line).length_le
      simp only [Passage.doc, Doc.spread, Passage.source, extent_cons, extent_nil, columns]
      omega
  | @run more _ unfenced plain continues ended =>
      obtain ⟨lead, word, tail, opening⟩ := exists_opening line shown
      exact Nat.le_trans (Doc.words_spread_le _) (extent_runItems_le opening more)

theorem spreadAll_append (first second : List Doc) :
    spreadAll (first ++ second) = spreadAll first + spreadAll second := by
  induction first with
  | nil => simp [spreadAll]
  | cons doc rest ih =>
      rw [List.cons_append, spreadAll, spreadAll, ih]
      omega

theorem passagesOf_spread_le (lines : List Text) :
    spreadAll ((passagesOf lines).map Passage.doc) ≤ extent lines := by
  induction lines using passagesOf_induction with
  | nil => simp [passagesOf, spreadAll]
  | blank line rest blank ih =>
      rw [passagesOf_blank line rest blank, extent_cons]
      omega
  | passage line rest passage later shown begins ih =>
      have here := begins.doc_spread_le shown
      have gap : spreadAll ((gapBefore later).map Passage.doc) = 0 := by
        unfold gapBefore
        split <;> rfl
      rw [begins.passagesOf_eq shown, ← begins.source_eq, List.cons_append, List.map_cons,
        List.map_append, spreadAll, spreadAll_append, gap, extent_append]
      omega

theorem flowProse_spread_le (text : Text) : (flowProse text).spread ≤ text.length + 1 := by
  rw [flowProse, Doc.join, Doc.spread, spreadAll_intersperse _ rfl, passages_eq]
  exact Nat.le_trans (passagesOf_spread_le (lines text)) (extent_lines_le text)

theorem flowProse_nesting (text : Text) : (flowProse text).nesting = 0 := by
  refine Nat.le_zero.mp (nestingAll_intersperse_le _ rfl _ 0 ?_)
  intro doc member
  obtain ⟨passage, -, rfl⟩ := List.mem_map.mp member
  cases passage with
  | blank => simp [Passage.doc, Doc.nesting]
  | run lines => simp [Passage.doc, Doc.words_nesting]
  | heading line => simp [Passage.doc, Doc.nesting]
  | fenced lines => simp [Passage.doc, Doc.lines_nesting]

theorem verbatimDoc_spread_le (text : Text) :
    (verbatimDoc text).spread ≤ text.length + 5 := by
  have each (line : Text) : (lineDoc line).spread ≤ line.length := by
    unfold lineDoc
    split <;> simp [Doc.spread]
  have others (lines : List Text) : spreadAll (lines.map lineDoc) ≤ extent lines := by
    induction lines with
    | nil => simp [spreadAll]
    | cons line rest ih =>
        have here := each line
        rw [List.map_cons, spreadAll, extent_cons]
        omega
  rw [verbatimDoc, Doc.spread, Doc.join, Doc.spread, spreadAll_intersperse _ rfl,
    show text.length + 5 = text.length + 1 + 4 from rfl, ← extent_splitOn '\n' text]
  cases text.splitOn '\n' with
  | nil => simp [verbatimLines, spreadAll]
  | cons line rest =>
      have behind := others rest
      have here : (if line = [] then Doc.nil else .text (margin ++ line)).spread ≤
          line.length + 4 := by
        split
        · simp [Doc.spread]
        · simp only [Doc.spread, columns, List.length_append, margin, List.length_replicate,
            indentStep]
          omega
      rw [verbatimLines, spreadAll, extent_cons]
      omega

theorem verbatimDoc_nesting_le (text : Text) : (verbatimDoc text).nesting ≤ indentStep := by
  have inner : (Doc.join (verbatimLines (text.splitOn '\n')) .hardLine).nesting ≤ 0 := by
    refine nestingAll_intersperse_le _ rfl _ 0 ?_
    have each (line : Text) : (lineDoc line).nesting ≤ 0 := by
      unfold lineDoc
      split <;> simp [Doc.nesting]
    intro doc member
    cases lines : text.splitOn '\n' with
    | nil => simp [lines, verbatimLines] at member
    | cons line rest =>
        rw [lines, verbatimLines, List.mem_cons, List.mem_map] at member
        rcases member with rfl | ⟨other, -, rfl⟩
        · split <;> simp [Doc.nesting]
        · exact each other
  rw [verbatimDoc, Doc.nesting]
  omega

/-! Names and texts of a comment. -/

def Part.names : Part → List Text
  | .tags names => names
  | _ => []

def Comment.names {kind : Kind} (comment : Comment kind) : List Text :=
  comment.parts.flatMap Part.names

def Comment.textLength {kind : Kind} (comment : Comment kind) : Nat :=
  (comment.parts.flatMap Part.texts).flatten.length

def Part.volume (part : Part) : Nat :=
  part.texts.flatten.length + 2 * part.names.length

@[simp] theorem Part.volume_prose (text : Text) : (Part.prose text).volume = text.length := by
  simp [Part.volume, Part.texts, Part.names]

@[simp] theorem Part.volume_code (text : Text) : (Part.code text).volume = text.length := by
  simp [Part.volume, Part.texts, Part.names]

@[simp] theorem Part.volume_tags_nil : (Part.tags []).volume = 0 := rfl

@[simp] theorem Part.volume_tags_cons (name : Text) (rest : List Text) :
    (Part.tags (name :: rest)).volume = name.length + 2 + (Part.tags rest).volume := by
  simp only [Part.volume, Part.texts, Part.names, List.flatten_cons, List.length_append,
    List.length_cons]
  omega

theorem Part.volume_le_extent (part : Part) : part.volume ≤ part.extent := by
  cases part with
  | prose text => simp [Part.extent]
  | code text => simp [Part.extent]
  | tags names =>
      rw [Part.extent, namesExtent]
      induction names with
      | nil => simp
      | cons name rest ih =>
          rw [Part.volume_tags_cons, extent_cons]
          omega

def partsVolume (parts : List Part) : Nat :=
  (parts.flatMap Part.texts).flatten.length + 2 * (parts.flatMap Part.names).length

@[simp] theorem partsVolume_cons (part : Part) (rest : List Part) :
    partsVolume (part :: rest) = part.volume + partsVolume rest := by
  simp only [partsVolume, Part.volume, List.flatMap_cons, List.flatten_append, List.length_append]
  omega

theorem partsVolume_le_partsExtent (parts : List Part) : partsVolume parts ≤ partsExtent parts := by
  induction parts with
  | nil => exact Nat.zero_le _
  | cons part rest ih =>
      have here := part.volume_le_extent
      rw [partsVolume_cons, partsExtent_cons]
      omega

theorem partsVolume_mergeTags (parts : List Part) :
    partsVolume (mergeTags parts) = partsVolume parts := by
  rw [partsVolume, flatMap_mergeTags Part.texts fun _ _ => rfl,
    flatMap_mergeTags Part.names fun _ _ => rfl, ← partsVolume]

theorem Part.volume_le_partsVolume (part : Part) (parts : List Part) (member : part ∈ parts) :
    part.volume ≤ partsVolume parts := by
  induction parts with
  | nil => contradiction
  | cons first rest ih =>
      rw [partsVolume_cons]
      rcases List.mem_cons.mp member with rfl | behind
      · omega
      · have bound := ih behind
        omega

/-! How far each part reaches. -/

theorem packOnto_bounds (width : Nat) (names : List Text) (room : Room) (line : Text) :
    (∀ shown ∈ (packOnto width room line names).lines,
        columns shown ≤ max (columns line) 6 + (Part.tags names).volume) ∧
      (packOnto width room line names).peak ≤ max room.used 6 + (Part.tags names).volume := by
  induction names generalizing room line with
  | nil =>
      simp only [packOnto, List.mem_singleton, forall_eq, Part.volume_tags_nil]
      omega
  | cons name rest ih =>
      have opening : tagOpening.length = 6 := rfl
      have separator : nameSeparator.length = 2 := rfl
      rw [packOnto, Part.volume_tags_cons]
      by_cases fits : room.fits (columns (nameSeparator ++ name)) = true
      · obtain ⟨lines, peak⟩ := ih (room.take (columns (nameSeparator ++ name)))
          (line ++ (nameSeparator ++ name))
        rw [if_pos fits]
        simp only [Packing.reaching, Room.take_used, columns, List.length_append,
          separator] at lines peak ⊢
        refine ⟨fun shown member => ?_, by omega⟩
        have bound := lines shown member
        omega
      · obtain ⟨lines, peak⟩ := ih ((Room.startLine width 0).take (columns (tagOpening ++ name)))
          (tagOpening ++ name)
        rw [if_neg fits]
        simp only [Packing.reaching, Packing.afterLine, Room.take_used, Room.startLine,
          Room.ofWidth, columns, List.length_append, opening] at lines peak ⊢
        refine ⟨fun shown member => ?_, by omega⟩
        rcases List.mem_cons.mp member with rfl | behind
        · omega
        · have bound := lines shown behind
          omega

theorem ofNames_bounds (width offset : Nat) (names : List Text) :
    (∀ line ∈ (Packing.ofNames width offset names).lines,
        columns line ≤ 6 + (Part.tags names).volume) ∧
      (Packing.ofNames width offset names).peak ≤ offset + 6 + (Part.tags names).volume := by
  cases names with
  | nil => simp [Packing.ofNames, tagWord]
  | cons name rest =>
      have opening : tagOpening.length = 6 := rfl
      obtain ⟨lines, peak⟩ := packOnto_bounds width rest
        ((Room.startLine width offset).take (columns (tagOpening ++ name))) (tagOpening ++ name)
      rw [Part.volume_tags_cons]
      simp only [Packing.ofNames, Packing.reaching, Room.take_used, Room.startLine, Room.ofWidth,
        columns, List.length_append, opening] at lines peak ⊢
      refine ⟨fun line member => ?_, by omega⟩
      have bound := lines line member
      omega

theorem arrangePart_within (width offset : Nat) (near : offset ≤ columns openLead) (part : Part) :
    (∀ doc ∈ (arrangePart width offset part).parts.map ArrangedPart.doc, ∀ cursor : Cursor,
        cursor.room.used ≤ columns openLead →
          (doc.drawAt width 0 .broken cursor).Within (part.volume + 10)) ∧
      (arrangePart width offset part).peak ≤ part.volume + 10 := by
  have lead : columns openLead = 4 := rfl
  have whole (doc : Doc) (length : Nat) (nesting : doc.nesting ≤ indentStep)
      (spread : doc.spread ≤ length + 5) (cursor : Cursor)
      (used : cursor.room.used ≤ columns openLead) :
      (doc.drawAt width 0 .broken cursor).Within (length + 10) := by
    rw [indentStep] at nesting
    exact (doc.drawAt_within width 0 .broken cursor 4 (by omega) (by omega)).mono (by omega)
  cases part with
  | prose text =>
      have spread := flowProse_spread_le text
      have nesting := flowProse_nesting text
      simp only [arrangePart, List.map_cons, List.map_nil, List.mem_singleton, forall_eq,
        Part.volume_prose]
      exact ⟨whole (flowProse text) text.length (by omega) (by omega), Nat.zero_le _⟩
  | code text =>
      simp only [arrangePart, List.map_cons, List.map_nil, List.mem_singleton, forall_eq,
        Part.volume_code]
      exact ⟨whole (verbatimDoc text) text.length (verbatimDoc_nesting_le text)
        (verbatimDoc_spread_le text), Nat.zero_le _⟩
  | tags names =>
      obtain ⟨lines, peak⟩ := ofNames_bounds width offset names
      simp only [arrangePart, List.map_cons, List.map_nil, List.mem_singleton, forall_eq]
      refine ⟨fun cursor used => ?_, by omega⟩
      refine drawAll_intersperse_within width 0 4 _ (by omega) .hardLine
        (fun _ => newLine_within width 0 4 (by omega)) _ ?_ cursor (by omega)
      intro doc member other near
      obtain ⟨line, inLines, rfl⟩ := List.mem_map.mp member
      have bound := lines line inLines
      exact other.text_within line _ (by omega)

theorem arrangeMerged_within (width total : Nat) (parts : List Part)
    (each : ∀ part ∈ parts, part.volume ≤ total) (offset : Nat) (near : offset ≤ columns openLead) :
    (∀ doc ∈ (arrangeMerged width offset parts).parts.map ArrangedPart.doc, ∀ cursor : Cursor,
        cursor.room.used ≤ columns openLead →
          (doc.drawAt width 0 .broken cursor).Within (total + 10)) ∧
      (arrangeMerged width offset parts).peak ≤ total + 10 := by
  induction parts generalizing offset with
  | nil => simp [arrangeMerged, Arrangement.empty]
  | cons part rest ih =>
      have small := each part (by simp)
      obtain ⟨within, peak⟩ := arrangePart_within width offset near part
      obtain ⟨restWithin, restPeak⟩ := ih
        (fun other member => each other (List.mem_cons_of_mem part member)) 0 (Nat.zero_le _)
      simp only [arrangeMerged, Arrangement.append, List.map_append, List.mem_append]
      refine ⟨?_, Nat.max_le.mpr ⟨by omega, restPeak⟩⟩
      rintro doc (here | behind) cursor used
      · exact (within doc here cursor used).mono (by omega)
      · exact restWithin doc behind cursor used

theorem Arrangement.ofParts_within (width : Nat) (parts : List Part) (offset : Nat)
    (near : offset ≤ columns openLead) :
    (∀ doc ∈ (Arrangement.ofParts width offset parts).parts.map ArrangedPart.doc,
        ∀ cursor : Cursor, cursor.room.used ≤ columns openLead →
          (doc.drawAt width 0 .broken cursor).Within (partsVolume parts + 10)) ∧
      (Arrangement.ofParts width offset parts).peak ≤ partsVolume parts + 10 := by
  refine arrangeMerged_within width (partsVolume parts) _ ?_ offset near
  intro part member
  rw [← partsVolume_mergeTags]
  exact part.volume_le_partsVolume _ member

theorem arrange?_ok (width : Nat) (parts : List Part)
    (small : partsVolume parts + 10 < columnLimit) :
    arrange? width parts = .ok (Arrangement.ofParts width 0 parts,
      (Arrangement.ofParts width 0 parts).journal (.arranging parts.length width 0)) := by
  have peak := (Arrangement.ofParts_within width parts 0 (Nat.zero_le _)).2
  exact (withinColumns_eq_ok_iff _ _ _).mpr ⟨by omega, rfl⟩

/-- Every line holds text of one part only, so that the parts do not add up. -/
theorem Comment.peak_le {kind : Kind} (comment : Comment kind) (width : Nat) :
    (comment.arrangement width).peak ≤ partsVolume comment.parts + 10 ∧
      (comment.drawn width).peak ≤ partsVolume comment.parts + 10 := by
  have lead : columns openLead = 4 := rfl
  have close : columns closeMark = 2 := rfl
  obtain ⟨within, peak⟩ :=
    Arrangement.ofParts_within width comment.parts (columns openLead) (Nat.le_refl _)
  refine ⟨peak, ?_⟩
  have opened := (Cursor.start width).text_within openLead 4 (by
    simp [Cursor.start, Room.ofWidth, lead])
  have line := newLine_within width 0 4 (by omega)
  have blank (cursor : Cursor) : (blankLine.drawAt width 0 .broken cursor).Within 4 :=
    line.followedBy (line.followedBy (Drawn.within_still _ 4 line.used))
  have body := drawAll_intersperse_within width 0 4 (partsVolume comment.parts + 10) (by omega)
    blankLine blank _ within _ opened.used
  have closed := (newLine width 0).cursor.text_within closeMark (partsVolume comment.parts + 10) (by
    simp [newLine, Room.startLine, Room.ofWidth, close])
  rw [Comment.drawn, Doc.lay_eq_drawAt]
  exact ((opened.mono (by omega)).followedBy (body.followedBy ((line.mono (by omega)).followedBy
    (closed.followedBy (Drawn.within_still _ _ closed.used))))).peak

/-! Printing is refused for a name that breaks its line or for a column that cannot be kept. -/

def Part.Unbroken : Part → Prop
  | .prose _ => True
  | .code _ => True
  | .tags names => ∀ name ∈ names, '\n' ∉ name

theorem forall_unbroken_iff (parts : List Part) :
    (∀ part ∈ parts, part.Unbroken) ↔ ∀ name ∈ parts.flatMap Part.names, '\n' ∉ name := by
  have each (part : Part) : part.Unbroken ↔ ∀ name ∈ part.names, '\n' ∉ name := by
    cases part with
    | prose text => simp [Part.Unbroken, Part.names]
    | code text => simp [Part.Unbroken, Part.names]
    | tags names => rfl
  simp only [each, List.mem_flatMap, forall_exists_index, and_imp]
  exact ⟨fun all name part inParts inPart => all part inParts name inPart,
    fun all part inParts name inPart => all name part inParts inPart⟩

theorem mergeTags_unbroken (parts : List Part) (unbroken : ∀ part ∈ parts, part.Unbroken) :
    ∀ part ∈ mergeTags parts, part.Unbroken := by
  rwa [forall_unbroken_iff, flatMap_mergeTags Part.names fun _ _ => rfl, ← forall_unbroken_iff]

theorem arrangePart_breaksLine_iff (width offset : Nat) (part : Part) :
    (arrangePart width offset part).parts.any ArrangedPart.breaksLine = true ↔
      ∃ name ∈ part.names, '\n' ∈ name := by
  cases part with
  | prose text => simp [arrangePart, ArrangedPart.breaksLine, Part.names]
  | code text => simp [arrangePart, ArrangedPart.breaksLine, Part.names]
  | tags names =>
      have lines : (arrangePart width offset (.tags names)).parts.any ArrangedPart.breaksLine =
          true ↔ ∃ line ∈ (Packing.ofNames width offset names).lines, '\n' ∈ line := by
        simp [arrangePart, ArrangedPart.breaksLine]
      rw [lines]
      constructor
      · rintro ⟨line, inLines, inside⟩
        by_contra single
        have lacks := ofNames_lacks '\n' (by decide) (by decide) names
          (fun name member broken => single ⟨name, member, broken⟩) width offset
        exact lacks line inLines inside
      · rintro ⟨name, member, inside⟩
        exact exists_mem_ofNames '\n' names name member inside width offset

theorem arrangeMerged_breaksLine_iff (width offset : Nat) (parts : List Part) :
    (arrangeMerged width offset parts).parts.any ArrangedPart.breaksLine = true ↔
      ∃ name ∈ parts.flatMap Part.names, '\n' ∈ name := by
  induction parts generalizing offset with
  | nil => simp [arrangeMerged, Arrangement.empty]
  | cons part rest ih =>
      rw [arrangeMerged, Arrangement.append, List.any_append, Bool.or_eq_true,
        arrangePart_breaksLine_iff, ih, List.flatMap_cons]
      simp only [List.mem_append, or_and_right, exists_or]

theorem Comment.breaksLine_iff {kind : Kind} (comment : Comment kind) (width : Nat) :
    (comment.arrangement width).parts.any ArrangedPart.breaksLine = true ↔
      ∃ name ∈ comment.names, '\n' ∈ name := by
  rw [Comment.arrangement, Arrangement.ofParts, arrangeMerged_breaksLine_iff,
    flatMap_mergeTags Part.names fun _ _ => rfl, ← Comment.names]

theorem Comment.arrangement_unbroken {kind : Kind} (comment : Comment kind) (width : Nat)
    (unbroken : ∀ part ∈ comment.parts, part.Unbroken) :
    (comment.arrangement width).parts.any ArrangedPart.breaksLine = false := by
  rw [forall_unbroken_iff] at unbroken
  rw [Bool.eq_false_iff, Ne, comment.breaksLine_iff]
  rintro ⟨name, member, inside⟩
  exact unbroken name member inside

theorem Comment.print?_eq {kind : Kind} (comment : Comment kind) (page : Page)
    (small : partsVolume comment.parts + 10 < columnLimit) :
    comment.print? page =
      if (comment.arrangement page.width).parts.any ArrangedPart.breaksLine then
        .error .newlineInText
      else .ok (comment.printed page.width) := by
  obtain ⟨arranged, drawn⟩ := comment.peak_le page.width
  have kept : ¬ columnLimit ≤ (comment.arrangement page.width).peak := by omega
  have reached : (comment.drawn page.width).peak < columnLimit := by omega
  simp only [Comment.print?, if_neg kept, withinColumns, if_pos reached]

theorem Comment.print?_unbroken {kind : Kind} (comment : Comment kind) (width : Nat)
    (unbroken : ∀ part ∈ comment.parts, part.Unbroken)
    (small : partsVolume comment.parts + 10 < columnLimit) :
    comment.print? ⟨width⟩ = .ok (comment.printed width) := by
  rw [comment.print?_eq ⟨width⟩ small, comment.arrangement_unbroken width unbroken]
  rfl

theorem Comment.print?_ok {kind : Kind} (comment : Comment kind) (width : Nat)
    (unbroken : ∀ part ∈ comment.parts, part.Unbroken)
    (small : partsExtent comment.parts + 10 < columnLimit) :
    comment.print? ⟨width⟩ = .ok (comment.printed width) := by
  have volume := partsVolume_le_partsExtent comment.parts
  exact comment.print?_unbroken width unbroken (by omega)

/-- Fewer than `2 ^ 63` characters, and fewer than `2 ^ 61` names: each of them takes memory beside
its characters, and no address space of 64 bits holds more. -/
structure Comment.Bounded {kind : Kind} (comment : Comment kind) : Prop where
  text : comment.textLength < columnLimit / 2
  names : comment.names.length < columnLimit / 8

theorem Comment.Bounded.volume {kind : Kind} {comment : Comment kind} (bounded : comment.Bounded) :
    partsVolume comment.parts + 10 < columnLimit := by
  have limit : columnLimit = 18446744073709551616 := rfl
  have text := bounded.text
  have names := bounded.names
  rw [Comment.textLength] at text
  rw [Comment.names] at names
  rw [partsVolume]
  omega

theorem bodyParts_unbroken (baseIndent : Nat) (body : Text) :
    ∀ part ∈ bodyParts baseIndent body, part.Unbroken := by
  intro part member
  have normal := (bodyParts_normal baseIndent body).each part member
  cases part with
  | prose text => trivial
  | code text => trivial
  | tags names => exact fun name inNames => (normal name inNames).noBreak

theorem print?_bodyParts (kind : Kind) (baseIndent : Nat) (body : Text) (width : Nat)
    (small : 28 * body.length + 38 < columnLimit) :
    (⟨bodyParts baseIndent body⟩ : Comment kind).print? ⟨width⟩ =
      .ok ((⟨bodyParts baseIndent body⟩ : Comment kind).printed width) := by
  have extents := partsExtent_bodyParts_le baseIndent body
  exact Comment.print?_ok ⟨bodyParts baseIndent body⟩ width (bodyParts_unbroken baseIndent body)
    (by simp only; omega)

end CommentFormat
