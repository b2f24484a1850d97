import CommentFormat.Proofs.Print.Rows

/-! The width of printed lines: which of them may run past the page, where lines end, and how wide
a page has to be for all but code to stay on it. -/

namespace CommentFormat

theorem Row.MayOverrun.items_length {row : Row} (overrun : row.MayOverrun) :
    row.content.items.length ≤ 1 := by
  cases overrun <;> simp [Content.items]

/-- A line that holds two items stays on the page, and a line of items ends only where the next
item would have run past it. -/
theorem Comment.printed_greedy {kind : Kind} (comment : Comment kind) (width : Nat)
    (unbroken : ∀ part ∈ comment.parts, part.Unbroken) :
    (partsExtent comment.parts + 10 < columnLimit →
        comment.print? ⟨width⟩ = .ok (comment.printed width)) ∧
      ∃ shown, ShownParts (mergeTags comment.parts) shown ∧
        (comment.printed width).text.splitOn '\n' = (pageRows shown).flatten.map Row.text ∧
        (∀ row ∈ (pageRows shown).flatten, width < columns row.text → row.MayOverrun) ∧
        (∀ row ∈ (pageRows shown).flatten, 1 < row.content.items.length →
          columns row.text ≤ width) ∧
        ∀ strip ∈ pageRows shown, strip.IsChain (Row.FullBefore width) := by
  obtain ⟨shown, shownParts, lines, packed⟩ := comment.exists_rows width unbroken
  have wide : ∀ row ∈ (pageRows shown).flatten, width < columns row.text → row.MayOverrun := by
    intro row member
    obtain ⟨strip, inPage, inStrip⟩ := List.mem_flatten.mp member
    exact (packed strip inPage).wide row inStrip
  refine ⟨comment.print?_ok width unbroken, shown, shownParts, lines, wide, ?_,
    fun strip inPage => (packed strip inPage).full⟩
  intro row member several
  by_contra exceeds
  have few := (wide row member (by omega)).items_length
  omega

theorem Comment.printed_greedy_narrow :
    ∃ shown, ShownParts [.tags [['a'], ['b', 'c'], ['d']], .prose ['e', ' ', '-', ' ', 'f']] shown ∧
      ((⟨[.tags [['a'], ['b', 'c']], .tags [['d']], .prose ['e', ' ', '-', ' ', 'f']]⟩ :
          Comment .file).printed 11).text.splitOn '\n' = (pageRows shown).flatten.map Row.text ∧
      (∀ row ∈ (pageRows shown).flatten, 1 < row.content.items.length → columns row.text ≤ 11) ∧
      ∀ strip ∈ pageRows shown, strip.IsChain (Row.FullBefore 11) := by
  have unbroken : ∀ part ∈ [Part.tags [['a'], ['b', 'c']], .tags [['d']],
      .prose ['e', ' ', '-', ' ', 'f']], part.Unbroken := by
    simp [Part.Unbroken]
  obtain ⟨-, shown, shownParts, lines, -, several, full⟩ :=
    Comment.printed_greedy (⟨_⟩ : Comment .file) 11 unbroken
  exact ⟨shown, shownParts, lines, several, full⟩

/-! A page that is wide enough. -/

def Passage.tokens : Passage → List Text
  | .blank => []
  | .run lines => runItems lines
  | .heading line => [trimEnd line]
  | .fenced lines => lines

def Part.tokens : Part → List Text
  | .prose text => (passages text).flatMap Passage.tokens
  | .code _ => []
  | .tags names => names

def longest : List Text → Nat
  | [] => 0
  | text :: rest => max (columns text) (longest rest)

theorem columns_le_longest (texts : List Text) (text : Text) (member : text ∈ texts) :
    columns text ≤ longest texts := by
  induction texts with
  | nil => contradiction
  | cons first rest ih =>
      rw [longest]
      rcases List.mem_cons.mp member with same | behind
      · rw [same]
        omega
      · have bound := ih behind
        omega

theorem mergeTags_tokens (parts : List Part) :
    (mergeTags parts).flatMap Part.tokens = parts.flatMap Part.tokens := by
  apply flatMap_mergeTags
  simp [Part.tokens]

/-! What the content of a line says about the part it comes from. -/

namespace Content

def tokens : Content → List Text
  | .heading line => [line]
  | .fenced line => [line]
  | .flowed items => items
  | .tagged names => names
  | _ => []

def sort? : Content → Option PartSort
  | .blank => none
  | .closing => none
  | .code _ => some .code
  | .heading _ => some .prose
  | .fenced _ => some .prose
  | .flowed _ => some .prose
  | .bare => some .tags
  | .tagged _ => some .tags

structure From (content : Content) (part : Part) : Prop where
  tokens : ∀ token ∈ content.tokens, token ∈ part.tokens
  sort : ∀ sort ∈ content.sort?, part.sort = sort

end Content

theorem Passage.ShownAs.from {passage : Passage} {strip : List Content}
    (shownAs : passage.ShownAs strip) {text : Text} (inText : passage ∈ passages text) :
    ∀ content ∈ strip, content.From (.prose text) := by
  have tokens (token : Text) (member : token ∈ passage.tokens) :
      token ∈ (Part.prose text).tokens := List.mem_flatMap.mpr ⟨passage, inText, member⟩
  cases shownAs with
  | blank => simpa using ⟨by simp [Content.tokens], by simp [Content.sort?]⟩
  | heading =>
      intro content member
      rw [List.mem_singleton.mp member]
      exact ⟨tokens, by simp [Content.sort?, Part.sort]⟩
  | fenced =>
      intro content member
      obtain ⟨line, inLines, rfl⟩ := List.mem_map.mp member
      refine ⟨?_, by simp [Content.sort?, Part.sort]⟩
      intro token isToken
      rw [List.mem_singleton.mp isToken]
      exact tokens line inLines
  | @run lines rows cut held =>
      intro content member
      obtain ⟨items, inRows, rfl⟩ := List.mem_map.mp member
      refine ⟨?_, by simp [Content.sort?, Part.sort]⟩
      intro token inItems
      refine tokens token ?_
      rw [Passage.tokens, ← cut]
      exact List.mem_flatten.mpr ⟨items, inRows, inItems⟩

theorem Part.ShownAs.from {part : Part} {strips : List (List Content)}
    (shownAs : part.ShownAs strips) : ∀ content ∈ strips.flatten, content.From part := by
  cases shownAs with
  | nothing empty => simpa using ⟨by simp [Content.tokens], by simp [Content.sort?]⟩
  | @prose text strips nonempty each =>
      intro content member
      obtain ⟨strip, inStrips, inStrip⟩ := List.mem_flatten.mp member
      obtain ⟨passage, inText, passageShown⟩ := exists_of_mem_forall₂ each strip inStrips
      exact passageShown.from inText content inStrip
  | code =>
      intro content member
      rw [List.flatten_singleton] at member
      obtain ⟨line, -, rfl⟩ := List.mem_map.mp member
      exact ⟨by simp [Content.tokens], by simp [Content.sort?, Part.sort]⟩
  | bare => simpa using ⟨by simp [Content.tokens], by simp [Content.sort?, Part.sort]⟩
  | @tags names rows nonempty cut held =>
      intro content member
      rw [List.flatten_singleton] at member
      obtain ⟨items, inRows, rfl⟩ := List.mem_map.mp member
      refine ⟨?_, by simp [Content.sort?, Part.sort]⟩
      intro token inItems
      rw [Part.tokens, ← cut]
      exact List.mem_flatten.mpr ⟨items, inRows, inItems⟩

theorem ShownParts.from {parts : List Part} {shown : List (List Content)}
    (shownParts : ShownParts parts shown) :
    ∀ content ∈ shown.flatten, content = .blank ∨ ∃ part ∈ parts, content.From part := by
  intro content member
  cases shownParts with
  | nothing => exact .inl (by simpa using member)
  | parts nonempty each =>
      obtain ⟨strip, inShown, inStrip⟩ := List.mem_flatten.mp member
      rcases mem_intercalate _ _ _ inShown with between | ⟨strips, inParts, inStrips⟩
      · rw [List.mem_singleton.mp between] at inStrip
        exact .inl (List.mem_singleton.mp inStrip)
      · obtain ⟨part, isPart, shownAs⟩ := exists_of_mem_forall₂ each strips inParts
        exact .inr ⟨part, isPart,
          shownAs.from content (List.mem_flatten.mpr ⟨strip, inStrips, inStrip⟩)⟩

theorem Part.ShownAs.ne_nil {part : Part} {strips : List (List Content)}
    (shownAs : part.ShownAs strips) : strips ≠ [] := by
  cases shownAs with
  | prose nonempty each =>
      rintro rfl
      exact nonempty (List.forall₂_nil_right_iff.mp each)
  | _ => simp

theorem Part.ShownAs.first_names {names : List Text} {strips below : List (List Content)}
    {content : Content} {contents : List Content} (shownAs : (Part.tags names).ShownAs strips)
    (starts : strips = (content :: contents) :: below) :
    content = .bare ∧ names = [] ∨ ∃ items, content = .tagged items ∧ items <+: names := by
  cases shownAs with
  | bare =>
      simp only [List.cons.injEq] at starts
      exact .inl ⟨starts.1.1.symm, rfl⟩
  | @tags _ rows nonempty cut held =>
      cases rows with
      | nil => exact absurd cut.symm nonempty
      | cons items rows =>
          simp only [List.map_cons, List.cons.injEq] at starts
          exact .inr ⟨items, starts.1.1.symm, rows.flatten, by simpa using cut⟩

theorem ShownParts.first_tags {parts : List Part} {shown : List (List Content)}
    (shownParts : ShownParts parts shown) {content : Content} {contents : List Content}
    {below : List (List Content)} (starts : shown = (content :: contents) :: below)
    (tagged : content.sort? = some .tags) :
    ∃ names later, parts = .tags names :: later ∧
      (content = .bare ∧ names = [] ∨ ∃ items, content = .tagged items ∧ items <+: names) := by
  cases shownParts with
  | nothing =>
      simp only [List.cons.injEq] at starts
      simp [← starts.1.1, Content.sort?] at tagged
  | parts nonempty each =>
      cases each with
      | nil => contradiction
      | @cons part strips later others shownAs behind =>
          obtain ⟨strip, more, isFirst⟩ := List.exists_cons_of_ne_nil shownAs.ne_nil
          have isStrip : strip = content :: contents := by
            cases others with
            | nil =>
                rw [List.intercalate_singleton, isFirst, List.cons.injEq] at starts
                exact starts.1
            | cons second rest =>
                rw [List.intercalate_cons_cons, isFirst, List.cons_append, List.cons_append,
                  List.cons.injEq] at starts
                exact starts.1
          have source := shownAs.from content (by simp [isFirst, isStrip])
          have isTags := source.sort .tags tagged
          cases part with
          | prose text => simp [Part.sort] at isTags
          | code text => simp [Part.sort] at isTags
          | tags names =>
              rw [isStrip] at isFirst
              exact ⟨names, later, rfl, shownAs.first_names isFirst⟩

theorem mem_stripsFrom (lead : Text) (strips : List (List Content)) (row : Row)
    (member : row ∈ (stripsFrom lead strips).flatten) :
    row.content ∈ strips.flatten ∧ (row.lead = [] ∨
      row.lead = lead ∧ ∃ contents below, strips = (row.content :: contents) :: below) := by
  cases strips with
  | nil => simp [stripsFrom] at member
  | cons strip below =>
      rw [stripsFrom, List.flatten_cons, List.mem_append] at member
      rcases member with here | behind
      · cases strip with
        | nil => simp [rowsFrom] at here
        | cons content contents =>
            rcases List.mem_cons.mp here with rfl | later
            · exact ⟨by simp, .inr ⟨rfl, contents, below, rfl⟩⟩
            · obtain ⟨other, inContents, rfl⟩ := List.mem_map.mp later
              exact ⟨by simp [inContents], .inl rfl⟩
      · obtain ⟨rows, inRows, inStrip⟩ := List.mem_flatten.mp behind
        obtain ⟨source, inBelow, rfl⟩ := List.mem_map.mp inRows
        obtain ⟨inSource, lead⟩ := mem_rowsFrom [] source row inStrip
        refine ⟨List.mem_flatten.mpr ⟨source, List.mem_cons_of_mem strip inBelow, inSource⟩, ?_⟩
        exact .inl (lead.elim id id)

/-- The first line of a comment that starts with a tag group, on a page that is too narrow for the
opening delimiter, the tag word and the first name together. -/
inductive CrowdedOpening (width : Nat) : List Part → Row → Prop where
  | bare {later : List Part} (narrow : width < 9) :
      CrowdedOpening width (.tags [] :: later) ⟨openLead, .bare⟩
  | name {name : Text} {names : List Text} {later : List Part} (narrow : width < 10 + columns name) :
      CrowdedOpening width (.tags (name :: names) :: later) ⟨openLead, .tagged [name]⟩

theorem Row.columns_text (row : Row) :
    columns row.text = columns row.lead + columns row.content.text :=
  List.length_append

theorem columns_tagLine_singleton (name : Text) : columns (tagLine [name]) = 6 + columns name := by
  have opening : tagOpening.length = 6 := rfl
  simp only [tagLine, List.intercalate_singleton, columns, List.length_append, opening]

theorem Row.MayOverrun.content_le {row : Row} (overrun : row.MayOverrun) (width : Nat)
    (least : 6 ≤ width) (tokens : ∀ token ∈ row.content.tokens, columns token + 6 ≤ width) :
    (∃ line, row.content = .code line) ∨ columns row.content.text + 4 ≤ width ∨
      row.content.sort? = some .tags ∧ columns row.content.text ≤ width := by
  cases overrun with
  | code lead line => exact .inl ⟨line, rfl⟩
  | heading lead line =>
      have bound := tokens line (by simp [Content.tokens])
      simp only [Content.text]
      omega
  | fenced lead line =>
      have bound := tokens line (by simp [Content.tokens])
      simp only [Content.text]
      omega
  | item lead item =>
      have bound := tokens item (by simp [Content.tokens])
      simp only [Content.text, packedLine_singleton, List.nil_append]
      omega
  | opening =>
      simp only [Content.text, columns, List.length_nil]
      omega
  | closing =>
      have close : columns closeMark = 2 := rfl
      simp only [Content.text, close]
      omega
  | bare lead =>
      have word : columns tagWord = 5 := rfl
      refine .inr (.inr ⟨rfl, ?_⟩)
      simp only [Content.text, word]
      omega
  | name lead name =>
      have bound := tokens name (by simp [Content.tokens])
      refine .inr (.inr ⟨rfl, ?_⟩)
      simp only [Content.text, columns_tagLine_singleton]
      omega

section Tokens

variable {parts : List Part} {shown : List (List Content)} (shownParts : ShownParts parts shown)

include shownParts

theorem ShownParts.tokens_le (width : Nat) (wide : 6 + longest (parts.flatMap Part.tokens) ≤ width)
    (row : Row) (member : row ∈ (pageRows shown).flatten) :
    ∀ token ∈ row.content.tokens, columns token + 6 ≤ width := by
  intro token inContent
  have inPage := (mem_stripsFrom openLead _ row member).1
  rw [List.flatten_append, List.mem_append, List.flatten_singleton, List.mem_singleton] at inPage
  rcases inPage with inShown | closing
  · rcases shownParts.from row.content inShown with blank | ⟨part, inParts, source⟩
    · simp [blank, Content.tokens] at inContent
    · have bound := columns_le_longest (parts.flatMap Part.tokens) token
        (List.mem_flatMap.mpr ⟨part, inParts, source.tokens token inContent⟩)
      omega
  · simp [closing, Content.tokens] at inContent

theorem ShownParts.crowded (width : Nat) (row : Row) (member : row ∈ (pageRows shown).flatten)
    (overrun : row.MayOverrun) (opens : row.lead ≠ []) (tagged : row.content.sort? = some .tags)
    (exceeds : width < columns row.text) : CrowdedOpening width parts row := by
  have opened : columns openLead = 4 := rfl
  have size := row.columns_text
  rcases (mem_stripsFrom openLead _ row member).2 with flush | ⟨lead, contents, below, starts⟩
  · contradiction
  · obtain ⟨rowLead, content⟩ := row
    dsimp only at lead starts tagged
    subst lead
    have first : ∃ strips, shown = (content :: contents) :: strips := by
      cases shown with
      | nil =>
          simp only [List.nil_append, List.cons.injEq] at starts
          simp [← starts.1.1, Content.sort?] at tagged
      | cons strip strips =>
          rw [List.cons_append, List.cons.injEq] at starts
          exact ⟨strips, by rw [starts.1]⟩
    obtain ⟨strips, isShown⟩ := first
    obtain ⟨names, later, rfl, held⟩ := shownParts.first_tags isShown tagged
    rcases held with ⟨rfl, rfl⟩ | ⟨items, rfl, leading⟩
    · have word : columns tagWord = 5 := rfl
      simp only [Content.text, opened, word] at size
      exact .bare (by omega)
    · cases overrun with
      | name _ name =>
          obtain ⟨more, rfl⟩ := leading
          simp only [Content.text, opened, columns_tagLine_singleton] at size
          exact .name (by omega)

end Tokens

/-- On a page that has room for the longest token behind the tag word, only code runs past the page,
and the first line if it has to hold the opening delimiter, the tag word and a name. -/
theorem Comment.printed_within {kind : Kind} (comment : Comment kind) (width : Nat)
    (unbroken : ∀ part ∈ comment.parts, part.Unbroken)
    (wide : 6 + longest (comment.parts.flatMap Part.tokens) ≤ width) :
    (partsExtent comment.parts + 10 < columnLimit →
        comment.print? ⟨width⟩ = .ok (comment.printed width)) ∧
      ∃ shown, ShownParts (mergeTags comment.parts) shown ∧
        (comment.printed width).text.splitOn '\n' = (pageRows shown).flatten.map Row.text ∧
        ∀ row ∈ (pageRows shown).flatten,
          (∃ line, row.content = .code line) ∨ columns row.text ≤ width ∨
            CrowdedOpening width (mergeTags comment.parts) row ∧ columns row.text ≤ width + 4 := by
  obtain ⟨shown, shownParts, lines, packed⟩ := comment.exists_rows width unbroken
  refine ⟨comment.print?_ok width unbroken, shown, shownParts, lines, ?_⟩
  intro row member
  by_cases fits : columns row.text ≤ width
  · exact .inr (.inl fits)
  · rw [← mergeTags_tokens] at wide
    have size := row.columns_text
    have leadBound : columns row.lead ≤ 4 := by
      rcases (mem_stripsFrom openLead _ row member).2 with flush | ⟨lead, -⟩
      · simp [flush]
      · simp [lead, openLead, openMark]
    obtain ⟨strip, inPage, inStrip⟩ := List.mem_flatten.mp member
    have overrun := (packed strip inPage).wide row inStrip (by omega)
    have tokens := shownParts.tokens_le width wide row member
    rcases overrun.content_le width (by omega) tokens with code | short | ⟨tagged, bound⟩
    · exact .inl code
    · omega
    · have opens : row.lead ≠ [] := by
        intro flush
        have none : columns row.lead = 0 := by rw [flush]; rfl
        omega
      exact .inr (.inr ⟨shownParts.crowded width row member overrun opens tagged (by omega),
        by omega⟩)

theorem Comment.printed_within_narrow :
    6 + longest ([Part.prose ['#', ' ', 'a'], .tags [['b']], .code ['c']].flatMap Part.tokens) ≤ 9 ∧
      ∃ shown, ShownParts [.prose ['#', ' ', 'a'], .tags [['b']], .code ['c']] shown ∧
        ((⟨[.prose ['#', ' ', 'a'], .tags [['b']], .code ['c']]⟩ :
            Comment .doc).printed 9).text.splitOn '\n' = (pageRows shown).flatten.map Row.text ∧
        ∀ row ∈ (pageRows shown).flatten,
          (∃ line, row.content = .code line) ∨ columns row.text ≤ 9 := by
  have wide : 6 + longest ([Part.prose ['#', ' ', 'a'], .tags [['b']], .code ['c']].flatMap
      Part.tokens) ≤ 9 := by decide +kernel
  have unbroken : ∀ part ∈ [Part.prose ['#', ' ', 'a'], .tags [['b']], .code ['c']],
      part.Unbroken := by
    simp [Part.Unbroken]
  obtain ⟨-, shown, shownParts, lines, each⟩ :=
    Comment.printed_within (⟨_⟩ : Comment .doc) 9 unbroken wide
  refine ⟨wide, shown, shownParts, lines, fun row member => ?_⟩
  rcases each row member with code | fits | ⟨crowded, -⟩
  · exact .inl code
  · exact .inr fits
  · cases crowded

/-- The room that every other line needs is not enough for the first line of a comment that starts
with a tag group. -/
theorem Comment.opening_tags_overrun :
    (∀ part ∈ [Part.tags [['a']]], part.Unbroken) ∧
      6 + longest ([Part.tags [['a']]].flatMap Part.tokens) ≤ 7 ∧
      ¬ ∃ shown, ShownParts (mergeTags [.tags [['a']]]) shown ∧
        ((⟨[.tags [['a']]]⟩ : Comment .doc).printed 7).text.splitOn '\n' =
          (pageRows shown).flatten.map Row.text ∧
        ∀ row ∈ (pageRows shown).flatten,
          (∃ line, row.content = .code line) ∨ columns row.text ≤ 7 := by
  refine ⟨by simp [Part.Unbroken], by decide, ?_⟩
  rintro ⟨shown, shownParts, lines, each⟩
  have printed : ((⟨[.tags [['a']]]⟩ : Comment .doc).printed 7).text.splitOn '\n' =
      [openLead ++ tagLine [['a']], closeMark] := by decide +kernel
  have member : openLead ++ tagLine [['a']] ∈ (pageRows shown).flatten.map Row.text := by
    rw [← lines, printed]
    simp
  obtain ⟨row, inPage, text⟩ := List.mem_map.mp member
  rcases each row inPage with ⟨line, code⟩ | fits
  · have inContents := (mem_stripsFrom openLead _ row inPage).1
    rw [List.flatten_append, List.mem_append, List.flatten_singleton, List.mem_singleton, code]
      at inContents
    rcases inContents with inShown | closing
    · rcases shownParts.from _ inShown with blank | ⟨part, isTags, source⟩
      · contradiction
      · rw [List.mem_singleton.mp isTags] at source
        exact absurd (source.sort .code rfl) (by decide)
    · contradiction
  · rw [text] at fits
    exact absurd fits (by decide)

end CommentFormat
