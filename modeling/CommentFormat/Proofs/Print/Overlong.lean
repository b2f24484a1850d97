import CommentFormat.Proofs.Print.Narrow
import CommentFormat.Proofs.Print.Width

/-! Overlong names: the reports that are made while names are packed name the tag lines that run past
the page once they are printed. -/

namespace CommentFormat

/-! Packing. -/

def pastPage (width offset : Nat) (name : Text) : List Text :=
  if width < offset + columns (tagOpening ++ name) then [name] else []

theorem opening_le_used (width offset : Nat) (name : Text) :
    columns tagOpening ≤
      ((Room.startLine width offset).take (columns (tagOpening ++ name))).used := by
  rw [Room.startLine_take_used]
  simp only [columns, List.length_append]
  omega

theorem packOnto_overlong_eq (width : Nat) (names : List Text) (room : Room) (line : Text)
    (on : room.On width) (begun : columns tagOpening ≤ room.used) :
    (packOnto width room line names).overlong = names.flatMap (pastPage width 0) := by
  induction names generalizing room line with
  | nil => rfl
  | cons name rest ih =>
      rw [packOnto, List.flatMap_cons, pastPage, Nat.zero_add]
      by_cases fits : room.fits (columns (nameSeparator ++ name)) = true
      · have reach : (room.take (columns (nameSeparator ++ name))).used ≤ width := by
          have separator : nameSeparator.length = 2 := rfl
          rw [Room.On] at on
          rw [Room.fits, decide_eq_true_eq, on] at fits
          simp only [Room.take_used, columns, List.length_append, separator] at fits ⊢
          omega
        have alone : columns (tagOpening ++ name) ≤ width := by
          simp only [Room.take_used, columns, List.length_append] at begun reach ⊢
          omega
        have behind := ih (room.take (columns (nameSeparator ++ name)))
          (line ++ (nameSeparator ++ name)) (Room.take_on width room _ on)
          (Nat.le_trans begun (Nat.le_add_right _ _))
        rw [if_pos fits, Packing.reaching, behind, if_neg (Nat.not_lt.mpr reach),
          if_neg (Nat.not_lt.mpr alone)]
      · have behind := ih ((Room.startLine width 0).take (columns (tagOpening ++ name)))
          (tagOpening ++ name) (Room.take_on width _ _ (Room.startLine_on width 0))
          (opening_le_used width 0 name)
        simp only [if_neg fits, Packing.reaching, Packing.afterLine, Room.startLine_take_used,
          Nat.zero_add, behind]

theorem ofNames_overlong_eq (width offset : Nat) (names : List Text) :
    (Packing.ofNames width offset names).overlong =
      (mapFrom (pastPage width) offset names).flatten := by
  cases names with
  | nil => rfl
  | cons name rest =>
      have behind := packOnto_overlong_eq width rest
        ((Room.startLine width offset).take (columns (tagOpening ++ name))) (tagOpening ++ name)
        (Room.take_on width _ _ (Room.startLine_on width offset))
        (opening_le_used width offset name)
      simp only [Packing.ofNames, Packing.reaching, Room.startLine_take_used, behind]
      rw [mapFrom, List.flatten_cons, ← List.flatMap_def]
      rfl

/-! Rows. -/

def Content.names : Content → List Text
  | .tagged names => names
  | _ => []

def Row.overlongNames (width : Nat) (row : Row) : List Text :=
  if width < columns row.text then row.content.names else []

theorem columns_opened_le (names : List Text) (name : Text) (member : name ∈ names) :
    columns (tagOpening ++ name) ≤ columns (tagLine names) := by
  have inside := (infix_intercalate nameSeparator names name member).length_le
  simp only [tagLine, columns, List.length_append]
  omega

theorem overlongNames_tagged (width : Nat) (lead : Text) (names : List Text) (shown : names ≠ [])
    (wide : width < columns (Row.mk lead (.tagged names)).text →
      (Row.mk lead (.tagged names)).MayOverrun) :
    (Row.mk lead (.tagged names)).overlongNames width =
      (mapFrom (pastPage width) (columns lead) names).flatten := by
  match names with
  | [] => contradiction
  | [name] =>
      simp [Row.overlongNames, Row.columns_text, Content.text, Content.names, mapFrom, pastPage,
        tagLine]
  | first :: second :: more =>
      have stays : columns lead + columns (tagLine (first :: second :: more)) ≤ width := by
        by_contra exceeds
        have few := (wide (by simpa [Row.columns_text, Content.text] using exceeds)).items_length
        simp [Content.items] at few
      have none (column : Nat) (near : column ≤ columns lead) (name : Text)
          (member : name ∈ first :: second :: more) : pastPage width column name = [] := by
        have bound := columns_opened_le _ name member
        rw [pastPage, if_neg (by omega)]
      rw [Row.overlongNames, Row.columns_text, Content.text, if_neg (Nat.not_lt.mpr stays), mapFrom,
        none _ (Nat.le_refl _) first (by simp), eq_comm, List.flatten_eq_nil_iff]
      intro found member
      rcases List.mem_cons.mp member with rfl | behind
      · rfl
      · obtain ⟨name, inRest, rfl⟩ := List.mem_map.mp behind
        exact none 0 (Nat.zero_le _) name (List.mem_cons_of_mem first inRest)

theorem mapFrom_append {α β : Type} (treat : Nat → α → β) (offset : Nat) (first second : List α)
    (shown : first ≠ []) :
    mapFrom treat offset (first ++ second) =
      mapFrom treat offset first ++ mapFrom treat 0 second := by
  obtain ⟨item, rest, rfl⟩ := List.exists_cons_of_ne_nil shown
  rw [List.cons_append, mapFrom, mapFrom, List.map_append, mapFrom_zero treat second,
    List.cons_append]

theorem overlongNames_group (width : Nat) (lead : Text) (rows : List (List Text))
    (held : ∀ names ∈ rows, names ≠ [])
    (wide : ∀ row ∈ rowsFrom lead (rows.map .tagged), width < columns row.text → row.MayOverrun) :
    (rowsFrom lead (rows.map .tagged)).flatMap (Row.overlongNames width) =
      (mapFrom (pastPage width) (columns lead) rows.flatten).flatten := by
  induction rows generalizing lead with
  | nil => rfl
  | cons names rest ih =>
      have shown := held names (by simp)
      rw [List.map_cons, rowsFrom, ← rowsFrom_nil] at wide ⊢
      have behind := ih [] (fun other member => held other (List.mem_cons_of_mem names member))
        fun row member => wide row (List.mem_cons_of_mem _ member)
      rw [List.flatMap_cons, behind, overlongNames_tagged width lead names shown (wide _ (by simp)),
        List.flatten_cons, mapFrom_append _ _ _ _ shown, List.flatten_append]
      rfl

/-! Parts. -/

def Part.overlong (width offset : Nat) : Part → List Text
  | .prose _ => []
  | .code _ => []
  | .tags names => (Packing.ofNames width offset names).overlong

theorem overlongNames_eq_nil (width : Nat) (lead : Text) (strips : List (List Content))
    (plain : ∀ content ∈ strips.flatten, content.names = []) :
    (stripsFrom lead strips).flatten.flatMap (Row.overlongNames width) = [] := by
  rw [List.flatMap_eq_nil_iff]
  intro row member
  rw [Row.overlongNames, plain row.content (mem_stripsFrom lead strips row member).1, ite_self]

theorem Content.From.names_eq_nil {content : Content} {part : Part} (source : content.From part)
    (notTags : part.sort ≠ .tags) : content.names = [] := by
  cases content with
  | tagged names => exact absurd (source.sort .tags rfl) notTags
  | _ => rfl

theorem Part.ShownAs.overlongNames {width : Nat} {lead : Text} {part : Part}
    {strips : List (List Content)} (shownAs : part.ShownAs strips)
    (packed : ∀ strip ∈ stripsFrom lead strips, Packed width strip) :
    (stripsFrom lead strips).flatten.flatMap (Row.overlongNames width) =
      part.overlong width (columns lead) := by
  cases part with
  | prose text =>
      exact overlongNames_eq_nil width lead strips fun content member =>
        (shownAs.from content member).names_eq_nil (by simp [Part.sort])
  | code text =>
      exact overlongNames_eq_nil width lead strips fun content member =>
        (shownAs.from content member).names_eq_nil (by simp [Part.sort])
  | tags names =>
      cases shownAs with
      | bare => exact overlongNames_eq_nil width lead [[.bare]] (by simp [Content.names])
      | @tags _ rows nonempty cut held =>
          have strip := packed (rowsFrom lead (rows.map .tagged)) (by simp [stripsFrom])
          have found := overlongNames_group width lead rows held strip.wide
          rw [Part.overlong, ofNames_overlong_eq, ← cut, ← found]
          simp [stripsFrom]

theorem overlongNames_shown {width : Nat} {parts : List Part} {shown : List (List (List Content))}
    (each : List.Forall₂ Part.ShownAs parts shown) (lead : Text)
    (packed : ∀ strip ∈ stripsFrom lead ([[.blank]].intercalate shown), Packed width strip) :
    (stripsFrom lead ([[.blank]].intercalate shown)).flatten.flatMap (Row.overlongNames width) =
      (mapFrom (Part.overlong width) (columns lead) parts).flatten := by
  induction each generalizing lead with
  | nil => rfl
  | @cons part strips rest others shownAs behind ih =>
      have blank := overlongNames_eq_nil width [] [[.blank]] (by simp [Content.names])
      cases others with
      | nil =>
          cases behind
          rw [List.intercalate_singleton] at packed ⊢
          simpa [mapFrom] using shownAs.overlongNames packed
      | cons next later =>
          rw [List.intercalate_cons_cons, List.append_assoc, stripsFrom_append _ _ _ shownAs.ne_nil,
            stripsFrom_append _ _ _ (by simp)] at packed ⊢
          have here := shownAs.overlongNames fun strip member =>
            packed strip (List.mem_append_left _ member)
          have below := ih [] fun strip member =>
            packed strip (List.mem_append_right _ (List.mem_append_right _ member))
          simp only [List.flatten_append, List.flatMap_append, here, blank, below]
          rw [mapFrom, List.flatten_cons, mapFrom_zero]
          rfl

theorem ShownParts.ne_nil {parts : List Part} {shown : List (List Content)}
    (shownParts : ShownParts parts shown) : shown ≠ [] := by
  cases shownParts with
  | nothing => simp
  | parts nonempty each =>
      cases each with
      | nil => contradiction
      | @cons part strips rest others shownAs behind =>
          have shown := shownAs.ne_nil
          cases others <;> simp [shown]

theorem ShownParts.overlongNames {width : Nat} {parts : List Part} {shown : List (List Content)}
    (shownParts : ShownParts parts shown)
    (packed : ∀ strip ∈ pageRows shown, Packed width strip) :
    (pageRows shown).flatten.flatMap (Row.overlongNames width) =
      (mapFrom (Part.overlong width) (columns openLead) parts).flatten := by
  have closing := overlongNames_eq_nil width [] [[.closing]] (by simp [Content.names])
  rw [pageRows, stripsFrom_append _ _ _ shownParts.ne_nil] at packed ⊢
  have inside (strip : List Row) (member : strip ∈ stripsFrom openLead shown) :=
    packed strip (List.mem_append_left _ member)
  rw [List.flatten_append, List.flatMap_append, closing, List.append_nil]
  cases shownParts with
  | nothing => exact overlongNames_eq_nil width openLead [[.blank]] (by simp [Content.names])
  | parts nonempty each => exact overlongNames_shown each openLead inside

/-! The journal. -/

def Event.carries (message : String) : Event → Bool
  | .entered _ => false
  | .noted report => report.message = message

inductive Row.ReportedBy (width : Nat) : Row → Event → Prop where
  | name (lead name : Text) :
      Row.ReportedBy width ⟨lead, .tagged [name]⟩ (.noted (.overlongName name width))

def Row.overrunsTagged (width : Nat) (row : Row) : Bool :=
  row.content.names ≠ [] && width < columns row.text

theorem filter_arrangeMerged_notes (width offset : Nat) (parts : List Part) :
    ((arrangeMerged width offset parts).notes.map .noted).filter
        (Event.carries "tag name overflows line width") =
      (mapFrom (Part.overlong width) offset parts).flatten.map
        fun name => .noted (.overlongName name width) := by
  have group (names : List Text) (packing : Packing) :
      ((repeatReport names ++ overlongReports width packing).map Event.noted).filter
          (Event.carries "tag name overflows line width") =
        packing.overlong.map fun name => .noted (.overlongName name width) := by
    have repeated : ((repeatReport names).map Event.noted).filter
        (Event.carries "tag name overflows line width") = [] := by
      rw [repeatReport]
      split <;> simp [Event.carries, Report.message]
    rw [List.map_append, List.filter_append, repeated, List.nil_append, overlongReports,
      List.map_map, List.filter_eq_self.mpr]
    · rfl
    · simp [Event.carries, Report.message]
  induction parts generalizing offset with
  | nil => rfl
  | cons part rest ih =>
      rw [arrangeMerged, Arrangement.append, List.map_append, List.filter_append, ih, mapFrom,
        List.flatten_cons, List.map_append, mapFrom_zero]
      cases part with
      | prose text => rfl
      | code text => rfl
      | tags names => rw [arrangePart, group, Part.overlong]

theorem reportedBy_filter (width : Nat) (rows : List Row)
    (wide : ∀ row ∈ rows, width < columns row.text → row.MayOverrun) :
    List.Forall₂ (Row.ReportedBy width) (rows.filter (Row.overrunsTagged width))
      ((rows.flatMap (Row.overlongNames width)).map
        fun name => .noted (.overlongName name width)) := by
  induction rows with
  | nil => exact .nil
  | cons row rest ih =>
      have behind := ih fun other member => wide other (List.mem_cons_of_mem row member)
      by_cases exceeds : width < columns row.text
      · have overrun := wide row (by simp) exceeds
        cases overrun with
        | name lead name =>
            rw [List.filter_cons_of_pos (by simp [Row.overrunsTagged, Content.names, exceeds]),
              List.flatMap_cons, Row.overlongNames, if_pos exceeds]
            exact .cons (.name lead name) behind
        | _ => simpa [Row.overrunsTagged, Row.overlongNames, Content.names] using behind
      · simpa [Row.overrunsTagged, Row.overlongNames, exceeds] using behind

/-- The reports of overlong names are those of the printed lines that hold names and run past the
page, line by line, and each of these lines holds one name. -/
theorem Comment.overlong_reported {kind : Kind} (comment : Comment kind) (width : Nat)
    (unbroken : ∀ part ∈ comment.parts, part.Unbroken) :
    (partsExtent comment.parts + 10 < columnLimit →
        comment.print? ⟨width⟩ = .ok (comment.printed width)) ∧
      ∃ shown, ShownParts (mergeTags comment.parts) shown ∧
        (comment.printed width).text.splitOn '\n' = (pageRows shown).flatten.map Row.text ∧
        List.Forall₂ (Row.ReportedBy width)
          ((pageRows shown).flatten.filter (Row.overrunsTagged width))
          ((comment.printed width).journal.filter
            (Event.carries "tag name overflows line width")) := by
  obtain ⟨shown, shownParts, lines, packed⟩ := comment.exists_rows width unbroken
  refine ⟨comment.print?_ok width unbroken, shown, shownParts, lines, ?_⟩
  have reported := reportedBy_filter width (pageRows shown).flatten fun row member => by
    obtain ⟨strip, inPage, inStrip⟩ := List.mem_flatten.mp member
    exact (packed strip inPage).wide row inStrip
  have journal : (comment.printed width).journal.filter
        (Event.carries "tag name overflows line width") =
      ((comment.arrangement width).notes.map .noted).filter
        (Event.carries "tag name overflows line width") := by
    simp [Comment.printed, Arrangement.journal, Event.carries]
  rw [shownParts.overlongNames packed, ← filter_arrangeMerged_notes] at reported
  rwa [journal]

theorem Comment.overlong_reported_narrow :
    let comment : Comment .file := ⟨[.tags [['a', 'b', 'c'], ['d']], .prose ['e'],
      .tags ["toolongname".toList, ['f']], .code ['g'], .tags []]⟩
    let lines : List Text := ["\x7b-| @docs abc".toList, "@docs d".toList, [], ['e'], [],
      "@docs toolongname".toList, "@docs f".toList, [], "    g".toList, [], "@docs".toList,
      "-\x7d".toList]
    (∀ part ∈ comment.parts, part.Unbroken) ∧
      comment.print? ⟨12⟩ = .ok (comment.printed 12) ∧
      (comment.printed 12).text.splitOn '\n' = lines ∧
      ∃ shown, ShownParts comment.parts shown ∧ (pageRows shown).flatten.map Row.text = lines ∧
        List.Forall₂ (Row.ReportedBy 12)
          ((pageRows shown).flatten.filter (Row.overrunsTagged 12))
          [.noted (.overlongName ['a', 'b', 'c'] 12),
            .noted (.overlongName "toolongname".toList 12)] := by
  intro comment lines
  have unbroken : ∀ part ∈ comment.parts, part.Unbroken := by simp [comment, Part.Unbroken]
  obtain ⟨prints, shown, shownParts, rows, reported⟩ :=
    Comment.overlong_reported comment 12 unbroken
  have text : (comment.printed 12).text.splitOn '\n' = lines := by decide +kernel
  have events : (comment.printed 12).journal.filter (Event.carries "tag name overflows line width") =
      [.noted (.overlongName ['a', 'b', 'c'] 12),
        .noted (.overlongName "toolongname".toList 12)] := by
    decide +kernel
  exact ⟨unbroken, prints (by decide), text, shown, shownParts, rows.symm.trans text,
    events ▸ reported⟩

end CommentFormat
