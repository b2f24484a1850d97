import CommentFormat.Proofs.Print.Reach
import CommentFormat.Proofs.Print.Written

/-! Parts are printed apart from each other: the text of a comment is put together from texts that
each come from one part, the width and whether the part is the first. -/

namespace CommentFormat

def Doc.layAt (doc : Doc) (width column : Nat) : Drawn :=
  layFrames width [.laying 0 .broken doc] ⟨Room.startLine width column, none⟩

theorem Doc.layAt_zero (doc : Doc) (width : Nat) : doc.layAt width 0 = doc.lay width := rfl

theorem startLine_at (width column : Nat) :
    (⟨Room.startLine width column, none⟩ : Cursor).At width column :=
  ⟨Room.startLine_on width column, by simp [Room.startLine, Room.ofWidth], rfl⟩

theorem Doc.written_layAt (doc : Doc) (width column : Nat) :
    written (doc.layAt width column).strokes =
      doc.writes width 0 ⟨Room.startLine width column, none⟩ := by
  rw [Doc.writes, Doc.layAt, layFrames_eq_drawFrames]
  simp [drawFrames, Frame.draw]

theorem flowProse_layAt (text : Text) (width column : Nat) :
    written ((flowProse text).layAt width column).strokes =
      joinLines (passageLines width column (passages text)) := by
  rw [Doc.written_layAt, flowProse_writes width _ column (startLine_at width column)]

theorem flowProse_render? (text : Text) (width : Nat) (small : text.length + 1 < columnLimit) :
    (flowProse text).render? ⟨width⟩ = .ok (written ((flowProse text).layAt width 0).strokes) := by
  have peak := Doc.lay_peak_le (flowProse text) width
  have spread := flowProse_spread_le text
  have nesting := flowProse_nesting text
  have within : ((flowProse text).lay width).peak < columnLimit := by omega
  simp [Doc.render?, Doc.strokes?, withinColumns, within, Doc.layAt_zero, Except.map]

def Part.block (width column : Nat) : Part → Text
  | .prose text => written ((flowProse text).layAt width column).strokes
  | .code text => joinLines ((text.splitOn '\n').map behindMargin)
  | .tags names => joinLines (Packing.ofNames width column names).lines

theorem Part.joinLines_printedLines (width column : Nat) (part : Part) :
    joinLines (part.printedLines width column) = part.block width column := by
  cases part with
  | prose text => exact (flowProse_layAt text width column).symm
  | code text => rfl
  | tags names => rfl

theorem extent_le_partsExtent (part : Part) (parts : List Part) (member : part ∈ parts) :
    part.extent ≤ partsExtent parts := by
  induction parts with
  | nil => contradiction
  | cons first rest ih =>
      rw [partsExtent_cons]
      rcases List.mem_cons.mp member with same | behind
      · rw [same]
        omega
      · have bound := ih behind
        omega

/-- Nothing passes from one part to the next: the first part stands behind the opening delimiter,
every other one is laid out as on a page of its own, and a blank line stands between each two. -/
theorem Comment.printed_eq_blocks {kind : Kind} (comment : Comment kind) (width : Nat)
    (unbroken : ∀ part ∈ comment.parts, part.Unbroken) :
    (comment.printed width).text =
        openLead ++ (['\n', '\n'].intercalate
          (mapFrom (Part.block width) (columns openLead) (mergeTags comment.parts)) ++
            '\n' :: closeMark) ∧
      (partsExtent comment.parts + 10 < columnLimit →
        comment.print? ⟨width⟩ = .ok (comment.printed width) ∧
          ∀ text, .prose text ∈ comment.parts →
            (flowProse text).render? ⟨width⟩ = .ok ((Part.prose text).block width 0)) := by
  refine ⟨?_, fun small => ⟨comment.print?_ok width unbroken small, ?_⟩⟩
  · have blocks : (mapFrom (Part.printedLines width) (columns openLead)
        (mergeTags comment.parts)).map joinLines =
          mapFrom (Part.block width) (columns openLead) (mergeTags comment.parts) := by
      cases mergeTags comment.parts with
      | nil => rfl
      | cons first rest => simp [mapFrom, Part.joinLines_printedLines]
    rw [← blocks]
    exact Arrangement.doc_writes width (mergeTags comment.parts)
  · intro text member
    have bound := extent_le_partsExtent (.prose text) comment.parts member
    rw [Part.extent] at bound
    exact flowProse_render? text width (by omega)

theorem Comment.printed_eq_blocks_mixed :
    ((⟨[.code ['a', '\n'], .prose ['b', ' ', 'c'], .tags [['d']], .tags [['e']]]⟩ :
        Comment .file).printed 3).text =
      openLead ++ (['\n', '\n'].intercalate
        [[' ', ' ', ' ', ' ', 'a', '\n'], (Part.prose ['b', ' ', 'c']).block 3 0,
          tagOpening ++ ['d', '\n'] ++ tagOpening ++ ['e']] ++ '\n' :: closeMark) := by
  have unbroken : ∀ part ∈ [Part.code ['a', '\n'], .prose ['b', ' ', 'c'], .tags [['d']],
      .tags [['e']]], part.Unbroken := by
    simp [Part.Unbroken]
  exact (Comment.printed_eq_blocks ⟨_⟩ 3 unbroken).1

end CommentFormat
