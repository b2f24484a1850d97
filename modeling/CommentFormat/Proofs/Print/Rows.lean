import CommentFormat.Proofs.Print.Written
import CommentFormat.Proofs.Print.Reach

/-! The rows of a printed comment: what each printed line holds, and where it comes from. -/

namespace CommentFormat

/-- What a printed line holds, apart from the opening delimiter. -/
inductive Content where
  | blank
  | closing
  | code (line : Text)
  | heading (line : Text)
  | fenced (line : Text)
  | flowed (items : List Text)
  | bare
  | tagged (names : List Text)
deriving DecidableEq, Repr

namespace Content

def text : Content → Text
  | .blank => []
  | .closing => closeMark
  | .code line => behindMargin line
  | .heading line => line
  | .fenced line => line
  | .flowed items => packedLine [' '] [] items
  | .bare => tagWord
  | .tagged names => tagLine names

def items : Content → List Text
  | .flowed items => items
  | .tagged names => names
  | _ => []

def separator : Content → Text
  | .flowed _ => [' ']
  | .tagged _ => nameSeparator
  | _ => []

def isVerbatim : Content → Bool
  | .code _ => true
  | .heading _ => true
  | .fenced _ => true
  | .bare => true
  | _ => false

theorem items_of_isVerbatim (content : Content) (verbatim : content.isVerbatim = true) :
    content.items = [] := by
  cases content with
  | flowed items => contradiction
  | tagged names => contradiction
  | _ => rfl

end Content

/-! Where the lines come from. -/

inductive Passage.ShownAs : Passage → List Content → Prop where
  | blank : Passage.ShownAs .blank [.blank]
  | run {lines : List Text} {rows : List (List Text)} (cut : rows.flatten = runItems lines)
      (held : ∀ items ∈ rows, items ≠ []) : Passage.ShownAs (.run lines) (rows.map .flowed)
  | heading {line : Text} : Passage.ShownAs (.heading line) [.heading (trimEnd line)]
  | fenced {lines : List Text} : Passage.ShownAs (.fenced lines) (lines.map .fenced)

/-- The lines of a part, in strips that each come from one run, one heading, one fenced block, one
tag group or one piece of code. -/
inductive Part.ShownAs : Part → List (List Content) → Prop where
  | nothing {text : Text} (empty : passages text = []) : Part.ShownAs (.prose text) [[.blank]]
  | prose {text : Text} {strips : List (List Content)} (nonempty : passages text ≠ [])
      (each : List.Forall₂ Passage.ShownAs (passages text) strips) :
      Part.ShownAs (.prose text) strips
  | code {text : Text} : Part.ShownAs (.code text) [(text.splitOn '\n').map .code]
  | bare : Part.ShownAs (.tags []) [[.bare]]
  | tags {names : List Text} {rows : List (List Text)} (nonempty : names ≠ [])
      (cut : rows.flatten = names) (held : ∀ items ∈ rows, items ≠ []) :
      Part.ShownAs (.tags names) [rows.map .tagged]

inductive ShownParts : List Part → List (List Content) → Prop where
  | nothing : ShownParts [] [[.blank]]
  | parts {parts : List Part} {shown : List (List (List Content))} (nonempty : parts ≠ [])
      (each : List.Forall₂ Part.ShownAs parts shown) :
      ShownParts parts ([[.blank]].intercalate shown)

/-! Rows. -/

/-- A printed line. The opening delimiter is the lead of the first one, and no other has any. -/
structure Row where
  lead : Text
  content : Content
deriving DecidableEq, Repr

def Row.text (row : Row) : Text :=
  row.lead ++ row.content.text

def rowsFrom (lead : Text) : List Content → List Row
  | [] => []
  | first :: rest => ⟨lead, first⟩ :: rest.map (⟨[], ·⟩)

def stripsFrom (lead : Text) : List (List Content) → List (List Row)
  | [] => []
  | first :: rest => rowsFrom lead first :: rest.map (rowsFrom [])

def pageRows (shown : List (List Content)) : List (List Row) :=
  stripsFrom openLead (shown ++ [[.closing]])

/-- The lines that may run past the page: those that are never broken, those that hold a delimiter
alone, and those that hold one item. -/
inductive Row.MayOverrun : Row → Prop where
  | code (lead line : Text) : Row.MayOverrun ⟨lead, .code line⟩
  | heading (lead line : Text) : Row.MayOverrun ⟨lead, .heading line⟩
  | fenced (lead line : Text) : Row.MayOverrun ⟨lead, .fenced line⟩
  | bare (lead : Text) : Row.MayOverrun ⟨lead, .bare⟩
  | opening : Row.MayOverrun ⟨openLead, .blank⟩
  | closing : Row.MayOverrun ⟨[], .closing⟩
  | item (lead item : Text) : Row.MayOverrun ⟨lead, .flowed [item]⟩
  | name (lead name : Text) : Row.MayOverrun ⟨lead, .tagged [name]⟩

/-- The first item of the next line, if it has items, would have run past the page on this one. -/
def Row.FullBefore (width : Nat) (row next : Row) : Prop :=
  ∀ item ∈ next.content.items.head?,
    width < columns (row.text ++ (row.content.separator ++ item))

structure Packed (width : Nat) (strip : List Row) : Prop where
  wide : ∀ row ∈ strip, width < columns row.text → row.MayOverrun
  full : strip.IsChain (Row.FullBefore width)

theorem mem_rowsFrom (lead : Text) (strip : List Content) (row : Row)
    (member : row ∈ rowsFrom lead strip) :
    row.content ∈ strip ∧ (row.lead = lead ∨ row.lead = []) := by
  cases strip with
  | nil => simp [rowsFrom] at member
  | cons first rest =>
      rcases List.mem_cons.mp member with rfl | behind
      · exact ⟨by simp, .inl rfl⟩
      · obtain ⟨content, inRest, rfl⟩ := List.mem_map.mp behind
        exact ⟨List.mem_cons_of_mem first inRest, .inr rfl⟩

theorem rowsFrom_nil (strip : List Content) : rowsFrom [] strip = strip.map (⟨[], ·⟩) := by
  cases strip <;> rfl

theorem packed_verbatim (width : Nat) (lead : Text) (strip : List Content)
    (verbatim : ∀ content ∈ strip, content.isVerbatim = true) :
    Packed width (rowsFrom lead strip) := by
  constructor
  · intro row member _
    have known := verbatim row.content (mem_rowsFrom lead strip row member).1
    obtain ⟨rowLead, content⟩ := row
    cases content with
    | code line => exact .code rowLead line
    | heading line => exact .heading rowLead line
    | fenced line => exact .fenced rowLead line
    | bare => exact .bare rowLead
    | _ => contradiction
  · refine (List.pairwise_of_forall_mem_list ?_).isChain
    intro row _ next inRows item head
    have known := verbatim next.content (mem_rowsFrom lead strip next inRows).1
    simp [next.content.items_of_isVerbatim known] at head

theorem packed_blank (width : Nat) (lead : Text) (known : lead = openLead ∨ lead = []) :
    Packed width (rowsFrom lead [.blank]) := by
  refine ⟨?_, by simp [rowsFrom]⟩
  intro row member exceeds
  rw [rowsFrom, List.map_nil, List.mem_singleton] at member
  rcases known with rfl | rfl
  · rw [member]
    exact .opening
  · simp [member, Row.text, Content.text] at exceeds

structure HoldsItems (separator opening : Text) (content : List Text → Content) : Prop where
  text : ∀ items, (content items).text = packedLine separator opening items
  items : ∀ items, (content items).items = items
  separator : ∀ items, (content items).separator = separator
  alone : ∀ lead item, Row.MayOverrun ⟨lead, content [item]⟩

theorem flowed_holdsItems : HoldsItems [' '] [] .flowed :=
  ⟨fun _ => rfl, fun _ => rfl, fun _ => rfl, .item⟩

theorem tagged_holdsItems : HoldsItems nameSeparator tagOpening .tagged :=
  ⟨fun _ => rfl, fun _ => rfl, fun _ => rfl, .name⟩

theorem Greedy.packed {width offset : Nat} {separator opening : Text} {rows : List (List Text)}
    (greedy : Greedy width separator opening offset rows) {content : List Text → Content}
    (holds : HoldsItems separator opening content) (lead : Text) (starts : offset = columns lead) :
    Packed width (rowsFrom lead (rows.map content)) := by
  have wide (items : List Text) (lead : Text) (shown : items ≠ [])
      (fits : 1 < items.length → columns lead + columns (packedLine separator opening items) ≤ width)
      (exceeds : width < columns (Row.text ⟨lead, content items⟩)) :
      Row.MayOverrun ⟨lead, content items⟩ := by
    simp only [Row.text, holds.text, columns, List.length_append] at exceeds fits
    match items with
    | [] => contradiction
    | [item] => exact holds.alone lead item
    | first :: second :: rest =>
        have bound := fits (by simp)
        omega
  induction greedy generalizing lead with
  | last shown fits =>
      refine ⟨?_, by simp [rowsFrom]⟩
      intro row member
      rw [List.map_singleton, rowsFrom, List.map_nil, List.mem_singleton] at member
      rw [member]
      exact wide _ lead shown (starts ▸ fits)
  | @full offset items more next rest shown fits exceeds below ih =>
      have under := ih [] rfl
      rw [rowsFrom_nil] at under
      rw [List.map_cons, rowsFrom]
      constructor
      · intro row member
        rcases List.mem_cons.mp member with rfl | behind
        · exact wide items lead shown (starts ▸ fits)
        · exact under.wide row behind
      · refine List.isChain_cons.mpr ⟨?_, under.full⟩
        rintro row isNext item first
        have isRow : row = ⟨[], content (next :: more)⟩ := by simpa using isNext.symm
        have isItem : item = next := by simpa [isRow, holds.items] using first.symm
        rw [isItem]
        simp only [Row.text, holds.text, holds.separator, columns, List.length_append] at exceeds ⊢
        simp only [starts, columns] at exceeds
        omega

/-! From the lines of a passage to those of a comment. -/

structure Lays (width : Nat) (lead : Text) (strips : List (List Content)) (lines : List Text) :
    Prop where
  texts : strips.flatten.map Content.text = lines
  shown : ∀ strip ∈ strips, strip ≠ []
  packed : ∀ strip ∈ stripsFrom lead strips, Packed width strip

theorem lays_strip (width : Nat) (lead : Text) (strip : List Content) (shown : strip ≠ [])
    (packed : Packed width (rowsFrom lead strip)) :
    Lays width lead [strip] (strip.map Content.text) :=
  ⟨by simp, by simpa using shown, by simpa [stripsFrom] using packed⟩

theorem stripsFrom_nil (strips : List (List Content)) :
    stripsFrom [] strips = strips.map (rowsFrom []) := by
  cases strips <;> rfl

theorem stripsFrom_append (lead : Text) (strips below : List (List Content)) (shown : strips ≠ []) :
    stripsFrom lead (strips ++ below) = stripsFrom lead strips ++ stripsFrom [] below := by
  obtain ⟨first, rest, rfl⟩ := List.exists_cons_of_ne_nil shown
  rw [List.cons_append, stripsFrom, stripsFrom, stripsFrom_nil, List.map_append, List.cons_append]

section Lays

variable {width : Nat} {lead : Text} {strips : List (List Content)} {lines : List Text}

theorem Lays.append (lays : Lays width lead strips lines) (nonempty : strips ≠ [])
    {below : List (List Content)} {more : List Text} (belowLays : Lays width [] below more) :
    Lays width lead (strips ++ below) (lines ++ more) := by
  refine ⟨by simp [← lays.texts, ← belowLays.texts], ?_, ?_⟩
  · intro strip member
    rcases List.mem_append.mp member with here | behind
    · exact lays.shown strip here
    · exact belowLays.shown strip behind
  · intro strip member
    rw [stripsFrom_append lead strips below nonempty] at member
    rcases List.mem_append.mp member with here | behind
    · exact lays.packed strip here
    · exact belowLays.packed strip behind

theorem Lays.rows (lays : Lays width lead strips lines) (nonempty : strips ≠ []) :
    ∃ first rest, lines = first :: rest ∧
      (stripsFrom lead strips).flatten.map Row.text = (lead ++ first) :: rest := by
  obtain ⟨strip, others, rfl⟩ := List.exists_cons_of_ne_nil nonempty
  obtain ⟨content, contents, rfl⟩ := List.exists_cons_of_ne_nil (lays.shown strip (by simp))
  have later : (others.map (rowsFrom [])).flatten.map Row.text = others.flatten.map Content.text := by
    have each : List.map Row.text ∘ rowsFrom [] = List.map Content.text := by
      funext strip
      simp [rowsFrom_nil, Row.text]
    rw [List.map_flatten, List.map_flatten, List.map_map, each]
  refine ⟨content.text, contents.map Content.text ++ others.flatten.map Content.text, ?_, ?_⟩
  · simp [← lays.texts]
  · rw [stripsFrom, List.flatten_cons, List.map_append, later]
    simp [rowsFrom, Row.text]

end Lays

def atLeastOne : List Text → List Text
  | [] => [[]]
  | line :: rest => line :: rest

theorem atLeastOne_of_ne_nil (lines : List Text) (shown : lines ≠ []) : atLeastOne lines = lines := by
  cases lines with
  | nil => contradiction
  | cons line rest => rfl

theorem joinLines_atLeastOne (lines : List Text) : joinLines (atLeastOne lines) = joinLines lines := by
  cases lines <;> rfl

theorem mem_atLeastOne (lines : List Text) (line : Text) (member : line ∈ atLeastOne lines) :
    line = [] ∨ line ∈ lines := by
  cases lines with
  | nil => exact .inl (by simpa [atLeastOne] using member)
  | cons first rest => exact .inr member

section Leads

variable (width : Nat) (lead : Text)

theorem lays_verbatim (strip : List Content) (shown : strip ≠ [])
    (verbatim : ∀ content ∈ strip, content.isVerbatim = true) :
    Lays width lead [strip] (strip.map Content.text) :=
  lays_strip width lead strip shown (packed_verbatim width lead strip verbatim)

theorem lays_fenced (lines : List Text) (shown : lines ≠ []) :
    Lays width lead [lines.map .fenced] lines := by
  have lays := lays_verbatim width lead (lines.map .fenced) (by simpa using shown)
    (by simp [Content.isVerbatim])
  have texts : (lines.map Content.fenced).map Content.text = lines := by
    rw [List.map_map]
    exact List.map_id lines
  rwa [texts] at lays

theorem lays_greedy {separator opening : Text} {content : List Text → Content}
    (holds : HoldsItems separator opening content) (rows : List (List Text))
    (greedy : Greedy width separator opening (columns lead) rows) :
    Lays width lead [rows.map content] (rows.map (packedLine separator opening)) := by
  have lays := lays_strip width lead (rows.map content) (by simpa using greedy.ne_nil)
    (greedy.packed holds lead rfl)
  have texts : (rows.map content).map Content.text = rows.map (packedLine separator opening) := by
    simp [holds.text]
  rwa [texts] at lays

theorem Passage.exists_strip (known : lead = openLead ∨ lead = []) (lines : List Text)
    (passage : Passage) (member : passage ∈ passagesOf lines) :
    ∃ strip, passage.ShownAs strip ∧
      Lays width lead [strip] (passage.linesAt width (columns lead)) := by
  rcases of_mem_passagesOf lines passage member with rfl | ⟨line, rest, later, shown, begins⟩
  · exact ⟨[.blank], .blank, lays_strip width lead _ (by simp) (packed_blank width lead known)⟩
  · cases begins with
    | unclosed fence within => exact ⟨_, .fenced, lays_fenced width lead _ (by simp)⟩
    | closed fence within closes => exact ⟨_, .fenced, lays_fenced width lead _ (by simp)⟩
    | heading unfenced heads =>
        exact ⟨_, .heading, lays_verbatim width lead _ (by simp) (by simp [Content.isVerbatim])⟩
    | @run more _ unfenced plain continues ended =>
        obtain ⟨_, _, _, opening⟩ := exists_opening line shown
        obtain ⟨rows, wrapped, cut, greedy⟩ :=
          wrapItems_greedy width (columns lead) _ (runItems_ne_nil opening more)
        refine ⟨_, .run cut greedy.shown, ?_⟩
        rw [Passage.linesAt, wrapped]
        exact lays_greedy width lead flowed_holdsItems rows greedy

theorem exists_strips (known : lead = openLead ∨ lead = []) (source : List Text)
    (found : List Passage) (member : ∀ passage ∈ found, passage ∈ passagesOf source) :
    ∃ strips, List.Forall₂ Passage.ShownAs found strips ∧
      Lays width lead strips (passageLines width (columns lead) found) := by
  induction found generalizing lead with
  | nil => exact ⟨[], .nil, rfl, by simp, by simp [stripsFrom]⟩
  | cons passage rest ih =>
      obtain ⟨strip, shownAs, lays⟩ :=
        passage.exists_strip width lead known source (member passage (by simp))
      obtain ⟨strips, restShown, restLays⟩ := ih [] (.inr rfl)
        fun other inRest => member other (List.mem_cons_of_mem passage inRest)
      refine ⟨strip :: strips, .cons shownAs restShown, ?_⟩
      rw [passageLines, flatMap_linesAt]
      exact lays.append (by simp) restLays

theorem Part.exists_strips (known : lead = openLead ∨ lead = []) (part : Part) :
    ∃ strips, part.ShownAs strips ∧ strips ≠ [] ∧
      Lays width lead strips (atLeastOne (part.printedLines width (columns lead))) := by
  cases part with
  | prose text =>
      by_cases empty : passages text = []
      · refine ⟨_, .nothing empty, by simp, ?_⟩
        rw [Part.printedLines, empty]
        exact lays_strip width lead _ (by simp) (packed_blank width lead known)
      · obtain ⟨strips, shownAs, lays⟩ := CommentFormat.exists_strips width lead known (lines text)
          (passages text) fun _ member => passages_eq text ▸ member
        have nonempty : strips ≠ [] := by
          rintro rfl
          exact empty (List.forall₂_nil_right_iff.mp shownAs)
        obtain ⟨first, rest, cut, -⟩ := lays.rows nonempty
        refine ⟨strips, .prose empty shownAs, nonempty, ?_⟩
        rwa [Part.printedLines, atLeastOne_of_ne_nil _ (by simp [cut])]
  | code text =>
      refine ⟨_, .code, by simp, ?_⟩
      rw [Part.printedLines, atLeastOne_of_ne_nil _ (by simp)]
      have lays := lays_verbatim width lead ((text.splitOn '\n').map .code) (by simp)
        (by simp [Content.isVerbatim])
      rwa [List.map_map] at lays
  | tags names =>
      by_cases empty : names = []
      · subst empty
        exact ⟨_, .bare, by simp,
          lays_verbatim width lead _ (by simp) (by simp [Content.isVerbatim])⟩
      · obtain ⟨rows, packed, cut, greedy⟩ := ofNames_greedy width (columns lead) names empty
        refine ⟨_, .tags empty cut greedy.shown, by simp, ?_⟩
        rw [Part.printedLines, packed,
          atLeastOne_of_ne_nil _ (by simpa using greedy.ne_nil)]
        exact lays_greedy width lead tagged_holdsItems rows greedy

end Leads

def Part.blockLines (width offset : Nat) (part : Part) : List Text :=
  atLeastOne (part.printedLines width offset)

theorem Part.blockLines_ne_nil (width offset : Nat) (part : Part) :
    part.blockLines width offset ≠ [] := by
  rw [Part.blockLines]
  cases part.printedLines width offset <;> simp [atLeastOne]

theorem exists_shown (width : Nat) (parts : List Part) (nonempty : parts ≠ []) (lead : Text)
    (known : lead = openLead ∨ lead = []) :
    ∃ shown, List.Forall₂ Part.ShownAs parts shown ∧ [[.blank]].intercalate shown ≠ [] ∧
      Lays width lead ([[.blank]].intercalate shown)
        ([[]].intercalate (mapFrom (Part.blockLines width) (columns lead) parts)) := by
  induction parts generalizing lead with
  | nil => contradiction
  | cons part rest ih =>
      obtain ⟨strips, shownAs, stripsNonempty, lays⟩ := part.exists_strips width lead known
      cases rest with
      | nil =>
          refine ⟨[strips], .cons shownAs .nil, by simpa using stripsNonempty, ?_⟩
          simpa [mapFrom, Part.blockLines] using lays
      | cons next later =>
          obtain ⟨shown, restShown, -, restLays⟩ := ih (by simp) [] (.inr rfl)
          have blank : Lays width [] [[.blank]] [[]] :=
            lays_strip width [] [.blank] (by simp) (packed_blank width [] (.inr rfl))
          have whole := (lays.append stripsNonempty blank).append (by simp) restLays
          obtain ⟨second, others, rfl⟩ : ∃ second others, shown = second :: others := by
            cases restShown
            exact ⟨_, _, rfl⟩
          refine ⟨strips :: second :: others, .cons shownAs restShown, by simp, ?_⟩
          rw [List.intercalate_cons_cons, mapFrom, List.map_cons, List.intercalate_cons_cons]
          exact whole

theorem exists_shownParts (width : Nat) (parts : List Part) :
    ∃ shown lines, ShownParts parts shown ∧ shown ≠ [] ∧ Lays width openLead shown lines ∧
      lines = atLeastOne ([[]].intercalate
        (mapFrom (Part.blockLines width) (columns openLead) parts)) := by
  by_cases empty : parts = []
  · subst empty
    exact ⟨_, _, .nothing, by simp,
      lays_strip width openLead [.blank] (by simp) (packed_blank width openLead (.inl rfl)), rfl⟩
  · obtain ⟨shown, each, nonempty, lays⟩ := exists_shown width parts empty openLead (.inl rfl)
    obtain ⟨first, rest, cut, -⟩ := lays.rows nonempty
    exact ⟨_, _, .parts empty each, nonempty, lays, (atLeastOne_of_ne_nil _ (by simp [cut])).symm⟩

theorem joinLines_lead (lead line : Text) (rest : List Text) :
    joinLines ((lead ++ line) :: rest) = lead ++ joinLines (line :: rest) := by
  cases rest <;> simp

theorem Part.newline_not_mem_printedLines (part : Part) (unbroken : part.Unbroken)
    (width offset : Nat) : ∀ line ∈ part.printedLines width offset, '\n' ∉ line := by
  cases part with
  | prose text =>
      rw [Part.printedLines, passages_eq]
      exact passageLines_lacks width offset (lines text) '\n' (by decide) (newline_not_mem_lines text)
  | code text =>
      intro line member
      obtain ⟨piece, inText, rfl⟩ := List.mem_map.mp member
      exact not_mem_behindMargin '\n' (by decide) piece
        (separator_not_mem_of_mem_splitOn '\n' text piece inText)
  | tags names => exact ofNames_lacks '\n' (by decide) (by decide) names unbroken width offset

theorem newline_not_mem_blocks (width : Nat) (parts : List Part)
    (unbroken : ∀ part ∈ parts, part.Unbroken) (offset : Nat) :
    ∀ line ∈ atLeastOne ([[]].intercalate (mapFrom (Part.blockLines width) offset parts)),
      '\n' ∉ line := by
  intro line member
  rcases mem_atLeastOne _ line member with rfl | inside
  · simp
  · rcases mem_intercalate _ _ _ inside with between | ⟨block, inBlocks, inBlock⟩
    · simp [List.mem_singleton.mp between]
    · obtain ⟨column, part, inParts, rfl⟩ := mem_mapFrom _ _ _ _ inBlocks
      rcases mem_atLeastOne _ line inBlock with rfl | printed
      · simp
      · exact part.newline_not_mem_printedLines (unbroken part inParts) width column line printed

theorem Comment.printed_text_eq {kind : Kind} (comment : Comment kind) (width : Nat) :
    (comment.printed width).text = openLead ++ (joinLines (atLeastOne ([[]].intercalate
      (mapFrom (Part.blockLines width) (columns openLead) (mergeTags comment.parts)))) ++
        '\n' :: closeMark) := by
  have blocks : (mapFrom (Part.printedLines width) (columns openLead)
      (mergeTags comment.parts)).map joinLines =
        (mapFrom (Part.blockLines width) (columns openLead) (mergeTags comment.parts)).map
          joinLines := by
    cases mergeTags comment.parts with
    | nil => rfl
    | cons first rest => simp [mapFrom, Part.blockLines, joinLines_atLeastOne]
  have shown : ∀ block ∈ mapFrom (Part.blockLines width) (columns openLead)
      (mergeTags comment.parts), block ≠ [] := by
    intro block member
    obtain ⟨column, part, -, rfl⟩ := mem_mapFrom _ _ _ _ member
    exact part.blockLines_ne_nil width column
  rw [joinLines_atLeastOne, joinLines_intercalate _ shown, ← blocks]
  exact Arrangement.doc_writes width (mergeTags comment.parts)

theorem Comment.exists_rows {kind : Kind} (comment : Comment kind) (width : Nat)
    (unbroken : ∀ part ∈ comment.parts, part.Unbroken) :
    ∃ shown, ShownParts (mergeTags comment.parts) shown ∧
      (comment.printed width).text.splitOn '\n' = (pageRows shown).flatten.map Row.text ∧
      ∀ strip ∈ pageRows shown, Packed width strip := by
  obtain ⟨shown, lines, shownParts, nonempty, lays, isLines⟩ :=
    exists_shownParts width (mergeTags comment.parts)
  have single := newline_not_mem_blocks width (mergeTags comment.parts)
    (mergeTags_unbroken comment.parts unbroken) (columns openLead)
  rw [← isLines] at single
  have closing : Lays width [] [[.closing]] [closeMark] := by
    refine lays_strip width [] [.closing] (by simp) ⟨?_, by simp [rowsFrom]⟩
    intro row member _
    rw [rowsFrom, List.map_nil, List.mem_singleton] at member
    rw [member]
    exact .closing
  have page := lays.append nonempty closing
  obtain ⟨start, others, isStart, -⟩ := lays.rows nonempty
  obtain ⟨first, rest, cut, rows⟩ := page.rows (by simp [nonempty])
  refine ⟨shown, shownParts, ?_, page.packed⟩
  have joined : joinLines (lines ++ [closeMark]) = joinLines lines ++ '\n' :: closeMark := by
    rw [joinLines_append lines [closeMark] (by simp [isStart]) (by simp), joinLines_singleton]
  rw [pageRows, rows, comment.printed_text_eq width, ← isLines, ← joined, cut, ← joinLines_lead,
    splitOn_joinLines _ (by simp)]
  have each : ∀ line ∈ first :: rest, '\n' ∉ line := by
    rw [← cut]
    intro line member
    rcases List.mem_append.mp member with here | last
    · exact single line here
    · rw [List.mem_singleton.mp last]
      decide
  intro line member
  rcases List.mem_cons.mp member with rfl | behind
  · rw [List.mem_append, not_or]
    exact ⟨by decide, each first (by simp)⟩
  · exact each line (List.mem_cons_of_mem first behind)

end CommentFormat
