import CommentFormat.Proofs.Layout.Flat
import Mathlib.Data.List.Forall2

/-! The algebra of documents: equations that hold inside every document around them. -/

namespace CommentFormat

/-! Drawings that look the same. -/

structure Drawn.Matches {α : Type} (view : List Stroke → List α) (first second : Drawn) : Prop where
  view : view first.strokes = view second.strokes
  cursor : first.cursor = second.cursor

theorem Drawn.matches_refl {α : Type} (view : List Stroke → List α) (drawn : Drawn) :
    drawn.Matches view drawn :=
  ⟨rfl, rfl⟩

section Matches

variable {α : Type} {view : List Stroke → List α} {first second third : Drawn}

theorem Drawn.Matches.symm (same : first.Matches view second) : second.Matches view first :=
  ⟨same.view.symm, same.cursor.symm⟩

theorem Drawn.Matches.trans (same : first.Matches view second) (also : second.Matches view third) :
    first.Matches view third :=
  ⟨same.view.trans also.view, same.cursor.trans also.cursor⟩

theorem Drawn.Matches.forming (same : first.Matches view second) (column other : Nat) :
    (first.forming column).Matches view (second.forming other) :=
  ⟨same.view, same.cursor⟩

end Matches

def Appends {α : Type} (view : List Stroke → List α) : Prop :=
  ∀ first second, view (first ++ second) = view first ++ view second

theorem Drawn.Matches.followedBy {α : Type} {view : List Stroke → List α} (appends : Appends view)
    {first second firstRest secondRest : Drawn} (same : first.Matches view second)
    (behind : firstRest.Matches view secondRest) :
    (first.followedBy firstRest).Matches view (second.followedBy secondRest) := by
  refine ⟨?_, behind.cursor⟩
  rw [Drawn.followedBy, Drawn.followedBy, appends, appends, same.view, behind.view]

/-! Documents that cannot be told apart. -/

/-- The documents have one flat width, by which the documents around them decide, and match wherever
they are laid out. -/
structure Doc.Alike {α : Type} (view : List Stroke → List α) (first second : Doc) : Prop where
  flat : first.flatColumns = second.flatColumns
  drawn : ∀ width indent mode cursor,
    (first.drawAt width indent mode cursor).Matches view (second.drawAt width indent mode cursor)

section Alike

variable {α : Type} {view : List Stroke → List α}

theorem Doc.alike_refl (view : List Stroke → List α) (doc : Doc) : doc.Alike view doc :=
  ⟨rfl, fun _ _ _ _ => Drawn.matches_refl view _⟩

theorem Doc.Alike.symm {first second : Doc} (alike : first.Alike view second) :
    second.Alike view first :=
  ⟨alike.flat.symm, fun width indent mode cursor => (alike.drawn width indent mode cursor).symm⟩

theorem Doc.Alike.trans {first second third : Doc} (alike : first.Alike view second)
    (also : second.Alike view third) : first.Alike view third :=
  ⟨alike.flat.trans also.flat, fun width indent mode cursor =>
    (alike.drawn width indent mode cursor).trans (also.drawn width indent mode cursor)⟩

theorem Doc.Alike.seen {first second : Doc} (alike : first.Alike id second)
    (view : List Stroke → List α) : first.Alike view second :=
  ⟨alike.flat, fun width indent mode cursor =>
    ⟨congrArg view (alike.drawn width indent mode cursor).view,
      (alike.drawn width indent mode cursor).cursor⟩⟩

theorem flatColumnsAll_alike {docs others : List Doc}
    (alike : List.Forall₂ (Doc.Alike view) docs others) :
    flatColumnsAll docs = flatColumnsAll others := by
  induction alike with
  | nil => rfl
  | cons here behind ih => rw [flatColumnsAll, flatColumnsAll, here.flat, ih]

theorem Room.choose_mode_congr (room : Room) (outer : Mode) (lead : Nat) {first second : Doc}
    (flat : first.flatColumns = second.flatColumns) :
    (room.choose outer first lead).mode = (room.choose outer second lead).mode := by
  cases outer with
  | flat => rfl
  | broken =>
      rw [Room.choose, Room.choose, flat]
      cases second.flatColumns <;> rfl

theorem Cursor.gap_congr (view : List Stroke → List α) (cursor : Cursor) (width indent : Nat)
    (outer : Mode) {first second : Doc} (flat : first.flatColumns = second.flatColumns) :
    (cursor.gap width indent outer first).mode = (cursor.gap width indent outer second).mode ∧
      (cursor.gap width indent outer first).drawn.Matches view
        (cursor.gap width indent outer second).drawn := by
  have beside := cursor.room.choose_mode_congr outer 1 flat
  have below := (Room.startLine width indent).choose_mode_congr outer 0 flat
  unfold Cursor.gap
  dsimp only
  rw [beside, below]
  cases (cursor.room.choose outer second 1).mode with
  | flat => exact ⟨rfl, rfl, rfl⟩
  | broken => exact ⟨rfl, rfl, rfl⟩

/-! Alike documents in the same place of a larger one. -/

variable (appends : Appends view)

include appends

theorem drawAll_alike {docs others : List Doc} (alike : List.Forall₂ (Doc.Alike view) docs others)
    (width indent : Nat) (mode : Mode) (cursor : Cursor) :
    (drawAll width indent mode cursor docs).Matches view
      (drawAll width indent mode cursor others) := by
  induction alike generalizing cursor with
  | nil => exact Drawn.matches_refl view _
  | cons here behind ih =>
      have same := here.drawn width indent mode cursor
      rw [drawAll, drawAll, ← same.cursor]
      exact same.followedBy appends (ih _)

theorem drawItems_alike {items others : List Doc}
    (alike : List.Forall₂ (Doc.Alike view) items others) (width indent : Nat) (mode : Mode)
    (cursor : Cursor) :
    (drawItems width indent mode cursor items).Matches view
      (drawItems width indent mode cursor others) := by
  induction alike generalizing cursor with
  | nil => exact Drawn.matches_refl view _
  | @cons next other rest later here behind ih =>
      obtain ⟨sameMode, sameGap⟩ := cursor.gap_congr view width indent mode here.flat
      have same := sameGap.followedBy appends
        (here.drawn width indent (cursor.gap width indent mode other).mode
          (cursor.gap width indent mode other).drawn.cursor)
      rw [drawItems, drawItems, sameMode, sameGap.cursor]
      rw [← same.cursor]
      exact same.followedBy appends (ih _)

theorem drawFill_alike {items others : List Doc}
    (alike : List.Forall₂ (Doc.Alike view) items others) (width indent : Nat) (mode : Mode)
    (cursor : Cursor) :
    (drawFill width indent mode cursor items).Matches view
      (drawFill width indent mode cursor others) := by
  cases alike with
  | nil => exact Drawn.matches_refl view _
  | @cons first other rest later here behind =>
      have same := (here.drawn width indent (cursor.room.choose mode other 0).mode cursor).forming
        (cursor.room.choose mode first 0).peak (cursor.room.choose mode other 0).peak
      rw [drawFill, drawFill, cursor.room.choose_mode_congr mode 0 here.flat]
      rw [← same.cursor]
      exact same.followedBy appends (drawItems_alike appends behind width indent mode _)

theorem Doc.Alike.concat {docs others : List Doc}
    (alike : List.Forall₂ (Doc.Alike view) docs others) :
    (Doc.concat docs).Alike view (.concat others) :=
  ⟨flatColumnsAll_alike alike, drawAll_alike appends alike⟩

theorem Doc.Alike.fill {items others : List Doc}
    (alike : List.Forall₂ (Doc.Alike view) items others) :
    (Doc.fill items).Alike view (.fill others) := by
  refine ⟨?_, drawFill_alike appends alike⟩
  rw [Doc.flatColumns, Doc.flatColumns, flatColumnsAll_alike alike, alike.length_eq]

omit appends in
theorem Doc.Alike.nest {first second : Doc} (alike : first.Alike view second) (more : Nat) :
    (Doc.nest more first).Alike view (.nest more second) :=
  ⟨alike.flat, fun width indent mode cursor =>
    (alike.drawn width (indent + more) mode cursor).forming _ _⟩

omit appends in
theorem Doc.Alike.group {first second : Doc} (alike : first.Alike view second) :
    (Doc.group first).Alike view (.group second) := by
  refine ⟨alike.flat, ?_⟩
  intro width indent mode cursor
  rw [Doc.drawAt, Doc.drawAt, cursor.room.choose_mode_congr mode 0 alike.flat]
  exact (alike.drawn width indent _ cursor).forming _ _

end Alike

/-! Documents with a hole. -/

inductive Context where
  | hole
  | concat (before : List Doc) (inner : Context) (after : List Doc)
  | nest (indent : Nat) (inner : Context)
  | group (inner : Context)
  | fill (before : List Doc) (inner : Context) (after : List Doc)

def Context.plug (doc : Doc) : Context → Doc
  | .hole => doc
  | .concat before inner after => .concat (before ++ inner.plug doc :: after)
  | .nest indent inner => .nest indent (inner.plug doc)
  | .group inner => .group (inner.plug doc)
  | .fill before inner after => .fill (before ++ inner.plug doc :: after)

theorem forall₂_around {α : Type} {view : List Stroke → List α} {first second : Doc}
    (alike : first.Alike view second) (before after : List Doc) :
    List.Forall₂ (Doc.Alike view) (before ++ first :: after) (before ++ second :: after) := by
  have same (docs : List Doc) : List.Forall₂ (Doc.Alike view) docs docs :=
    List.forall₂_same.mpr fun doc _ => Doc.alike_refl view doc
  exact List.rel_append (same before) (.cons alike (same after))

theorem Context.plug_alike {α : Type} {view : List Stroke → List α} (appends : Appends view)
    {first second : Doc} (alike : first.Alike view second) (context : Context) :
    (context.plug first).Alike view (context.plug second) := by
  induction context with
  | hole => exact alike
  | concat before inner after ih => exact .concat appends (forall₂_around ih before after)
  | nest indent inner ih => exact ih.nest indent
  | group inner ih => exact ih.group
  | fill before inner after ih => exact .fill appends (forall₂_around ih before after)

/-! The laws. -/

/-- Documents that draw the same strokes wherever they stand. -/
inductive Law : Doc → Doc → Prop where
  | flatten (before inner after : List Doc) :
      Law (.concat (before ++ .concat inner :: after)) (.concat (before ++ (inner ++ after)))
  | nilUnit (before after : List Doc) :
      Law (.concat (before ++ .nil :: after)) (.concat (before ++ after))
  | textUnit (before after : List Doc) :
      Law (.concat (before ++ .text [] :: after)) (.concat (before ++ after))
  | concatNone : Law (.concat []) .nil
  | concatOne (doc : Doc) : Law (.concat [doc]) doc
  | nestZero (doc : Doc) : Law (.nest 0 doc) doc
  | nestNest (outer inner : Nat) (doc : Doc) :
      Law (.nest outer (.nest inner doc)) (.nest (outer + inner) doc)
  | nestConcat (indent : Nat) (docs : List Doc) :
      Law (.nest indent (.concat docs)) (.concat (docs.map (.nest indent)))
  | nestGroup (indent : Nat) (doc : Doc) :
      Law (.nest indent (.group doc)) (.group (.nest indent doc))
  | groupGroup (doc : Doc) : Law (.group (.group doc)) (.group doc)
  | groupBreaking (doc : Doc) (breaks : doc.flatColumns = none) : Law (.group doc) doc
  | fillNone : Law (.fill []) .nil
  | fillOne (doc : Doc) : Law (.fill [doc]) (.group doc)
  | groupFill (items : List Doc) : Law (.group (.fill items)) (.fill items)

theorem addColumns_zero (columns : Option Nat) : addColumns (some 0) columns = columns := by
  cases columns <;> simp [addColumns]

theorem drawAll_append (width indent : Nat) (mode : Mode) (cursor : Cursor)
    (first second : List Doc) :
    drawAll width indent mode cursor (first ++ second) =
      (drawAll width indent mode cursor first).followedBy
        (drawAll width indent mode (drawAll width indent mode cursor first).cursor second) := by
  simp only [← drawFrames_docs, List.map_append, drawFrames_append]

theorem Doc.alike_of_eq {first second : Doc} (flat : first.flatColumns = second.flatColumns)
    (drawn : ∀ width indent mode cursor,
      first.drawAt width indent mode cursor = second.drawAt width indent mode cursor) :
    first.Alike id second := by
  refine ⟨flat, ?_⟩
  intro width indent mode cursor
  rw [drawn]
  exact Drawn.matches_refl id _

theorem Doc.nest_matches (width indent more : Nat) (mode : Mode) (cursor : Cursor) (doc : Doc) :
    ((Doc.nest more doc).drawAt width indent mode cursor).Matches id
      (doc.drawAt width (indent + more) mode cursor) :=
  ⟨rfl, rfl⟩

theorem Doc.group_matches (width indent : Nat) (mode : Mode) (cursor : Cursor) (doc : Doc) :
    ((Doc.group doc).drawAt width indent mode cursor).Matches id
      (doc.drawAt width indent (cursor.room.choose mode doc 0).mode cursor) :=
  ⟨rfl, rfl⟩

theorem flatten_alike (before inner after : List Doc) :
    (Doc.concat (before ++ .concat inner :: after)).Alike id
      (.concat (before ++ (inner ++ after))) := by
  apply Doc.alike_of_eq
  · simp only [Doc.flatColumns, flatColumnsAll_append, flatColumnsAll]
  · intro width indent mode cursor
    simp only [Doc.drawAt, drawAll_append, drawAll]

theorem unit_alike (unit : Doc) (flat : unit.flatColumns = some 0)
    (still : ∀ width indent mode cursor, unit.drawAt width indent mode cursor = .still cursor)
    (before after : List Doc) :
    (Doc.concat (before ++ unit :: after)).Alike id (.concat (before ++ after)) := by
  apply Doc.alike_of_eq
  · simp only [Doc.flatColumns, flatColumnsAll_append, flatColumnsAll, flat, addColumns_zero]
  · intro width indent mode cursor
    simp only [Doc.drawAt, drawAll_append, drawAll, still, Drawn.still_followedBy,
      Drawn.still_cursor]

theorem concatOne_alike (doc : Doc) : (Doc.concat [doc]).Alike id doc := by
  apply Doc.alike_of_eq
  · cases flat : doc.flatColumns <;> simp [Doc.flatColumns, flatColumnsAll, addColumns, flat]
  · intro width indent mode cursor
    simp [Doc.drawAt, drawAll]

theorem nestZero_alike (doc : Doc) : (Doc.nest 0 doc).Alike id doc :=
  ⟨rfl, fun width indent mode cursor => doc.nest_matches width indent 0 mode cursor⟩

theorem nestNest_alike (outer inner : Nat) (doc : Doc) :
    (Doc.nest outer (.nest inner doc)).Alike id (.nest (outer + inner) doc) := by
  refine ⟨rfl, ?_⟩
  intro width indent mode cursor
  have apart := (Doc.nest_matches width indent outer mode cursor (.nest inner doc)).trans
    (doc.nest_matches width (indent + outer) inner mode cursor)
  have joined := doc.nest_matches width indent (outer + inner) mode cursor
  rw [Nat.add_assoc] at apart
  exact apart.trans joined.symm

theorem flatColumnsAll_nest (indent : Nat) (docs : List Doc) :
    flatColumnsAll (docs.map (.nest indent)) = flatColumnsAll docs := by
  induction docs with
  | nil => rfl
  | cons doc rest ih => rw [List.map_cons, flatColumnsAll, flatColumnsAll, ih, Doc.flatColumns]

theorem drawAll_nest (width indent more : Nat) (mode : Mode) (docs : List Doc) (cursor : Cursor) :
    (drawAll width (indent + more) mode cursor docs).Matches id
      (drawAll width indent mode cursor (docs.map (.nest more))) := by
  induction docs generalizing cursor with
  | nil => exact Drawn.matches_refl id _
  | cons doc rest ih =>
      have here : (doc.drawAt width (indent + more) mode cursor).Matches id
          ((Doc.nest more doc).drawAt width indent mode cursor) := ⟨rfl, rfl⟩
      rw [List.map_cons, drawAll, drawAll]
      exact here.followedBy (fun _ _ => rfl) (ih _)

theorem nestConcat_alike (indent : Nat) (docs : List Doc) :
    (Doc.nest indent (.concat docs)).Alike id (.concat (docs.map (.nest indent))) := by
  refine ⟨(flatColumnsAll_nest indent docs).symm, ?_⟩
  intro width outer mode cursor
  exact (Doc.nest_matches width outer indent mode cursor (.concat docs)).trans
    (drawAll_nest width outer indent mode docs cursor)

theorem nestGroup_alike (indent : Nat) (doc : Doc) :
    (Doc.nest indent (.group doc)).Alike id (.group (.nest indent doc)) := by
  refine ⟨rfl, ?_⟩
  intro width outer mode cursor
  have left := (Doc.nest_matches width outer indent mode cursor (.group doc)).trans
    (doc.group_matches width (outer + indent) mode cursor)
  have right := (Doc.group_matches width outer mode cursor (.nest indent doc)).trans
    (doc.nest_matches width outer indent _ cursor)
  exact left.trans right.symm

theorem Room.choose_again (room : Room) (outer : Mode) (doc : Doc) (lead : Nat) :
    (room.choose (room.choose outer doc lead).mode doc lead).mode =
      (room.choose outer doc lead).mode := by
  cases outer with
  | flat => rfl
  | broken =>
      cases chosen : (room.choose .broken doc lead).mode with
      | flat => rfl
      | broken => exact chosen

theorem groupGroup_alike (doc : Doc) : (Doc.group (.group doc)).Alike id (.group doc) := by
  refine ⟨rfl, ?_⟩
  intro width indent mode cursor
  have outer := (Doc.group_matches width indent mode cursor (.group doc)).trans
    (doc.group_matches width indent _ cursor)
  have once : (cursor.room.choose mode (.group doc) 0).mode =
      (cursor.room.choose mode doc 0).mode := cursor.room.choose_mode_congr mode 0 rfl
  rw [once, Room.choose_again] at outer
  exact outer.trans (doc.group_matches width indent mode cursor).symm

theorem groupBreaking_alike (doc : Doc) (breaks : doc.flatColumns = none) :
    (Doc.group doc).Alike id doc := by
  refine ⟨rfl, ?_⟩
  intro width indent mode cursor
  have kept : (cursor.room.choose mode doc 0).mode = mode := by
    cases mode with
    | flat => rfl
    | broken => rw [Room.choose, breaks]
  have inner := doc.group_matches width indent mode cursor
  rwa [kept] at inner

theorem fillOne_alike (doc : Doc) : (Doc.fill [doc]).Alike id (.group doc) := by
  constructor
  · cases flat : doc.flatColumns <;> simp [Doc.flatColumns, flatColumnsAll, addColumns, flat]
  · intro width indent mode cursor
    have alone : (Doc.fill [doc]).drawAt width indent mode cursor =
        (Doc.group doc).drawAt width indent mode cursor := by
      simp only [Doc.drawAt, drawFill, drawItems]
      exact Drawn.followedBy_still _ _ rfl
    rw [alone]
    exact Drawn.matches_refl id _

/-! A group that fits around a fill decides nothing that the fill would not decide by itself. -/

theorem drawItems_fits (width indent : Nat) (items : List Doc) (cursor : Cursor) (total : Nat)
    (flat : flatColumnsAll items = some total)
    (fits : items.length + total ≤ cursor.room.free) :
    (drawItems width indent .flat cursor items).Matches id
      (drawItems width indent .broken cursor items) := by
  induction items generalizing cursor total with
  | nil => exact Drawn.matches_refl id _
  | cons next rest ih =>
      rw [flatColumnsAll, addColumns_eq_some_iff] at flat
      obtain ⟨here, behind, isHere, isBehind, rfl⟩ := flat
      rw [List.length_cons] at fits
      have chosen := cursor.room.choose_fits next 1 here isHere (by omega) .broken
      have gap : cursor.gap width indent .broken next =
          ⟨cursor.space.forming (cursor.room.choose .broken next 1).peak, .flat⟩ := by
        simp only [Cursor.gap, chosen]
      have reached := next.drawAt_flat width indent cursor.space.cursor here isHere
      rw [Cursor.space_cursor, Cursor.after_after] at reached
      have space : (cursor.space.forming 0).Matches id
          (cursor.space.forming (cursor.room.choose .broken next 1).peak) := ⟨rfl, rfl⟩
      have item := space.followedBy (fun _ _ => rfl)
        (Drawn.matches_refl id (next.drawAt width indent .flat cursor.space.cursor))
      have later := ih (cursor.after (1 + here)) behind isBehind
        (by rw [Cursor.after_room, Room.take_free]; omega)
      rw [← reached] at later
      rw [drawItems, drawItems, gap, Cursor.gap_flat]
      exact item.followedBy (fun _ _ => rfl) later

theorem drawFill_fits (width indent : Nat) (items : List Doc) (cursor : Cursor) (total : Nat)
    (flat : (Doc.fill items).flatColumns = some total) (fits : total ≤ cursor.room.free) :
    (drawFill width indent .flat cursor items).Matches id
      (drawFill width indent .broken cursor items) := by
  cases items with
  | nil => exact Drawn.matches_refl id _
  | cons first rest =>
      rw [Doc.flatColumns, flatColumnsAll, addColumns_eq_some_iff] at flat
      obtain ⟨gaps, inner, isGaps, isInner, rfl⟩ := flat
      obtain ⟨here, behind, isHere, isBehind, rfl⟩ := (addColumns_eq_some_iff _ _ _).mp isInner
      have gapCount : rest.length = gaps := by simpa using isGaps
      have chosen := cursor.room.choose_fits first 0 here isHere (by omega) .broken
      have reached := first.drawAt_flat width indent cursor here isHere
      have later := drawItems_fits width indent rest (cursor.after here) behind isBehind
        (by rw [Cursor.after_room, Room.take_free]; omega)
      rw [← reached] at later
      rw [drawFill, drawFill, chosen, Room.choose_flat]
      exact ((Drawn.matches_refl id _).forming _ _).followedBy (fun _ _ => rfl) later

theorem groupFill_alike (items : List Doc) : (Doc.group (.fill items)).Alike id (.fill items) := by
  refine ⟨rfl, ?_⟩
  intro width indent mode cursor
  apply (Doc.group_matches width indent mode cursor (.fill items)).trans
  cases mode with
  | flat => exact Drawn.matches_refl id _
  | broken =>
      cases chosen : (cursor.room.choose .broken (.fill items) 0).mode with
      | broken => exact Drawn.matches_refl id _
      | flat =>
          obtain ⟨total, flat, fits⟩ := cursor.room.fits_of_choose (.fill items) 0 chosen
          exact drawFill_fits width indent items cursor total flat (by omega)

theorem Law.alike {first second : Doc} (law : Law first second) : first.Alike id second := by
  cases law with
  | flatten before inner after => exact flatten_alike before inner after
  | nilUnit before after => exact unit_alike .nil rfl (fun _ _ _ _ => rfl) before after
  | textUnit before after => exact unit_alike (.text []) rfl (fun _ _ _ _ => rfl) before after
  | concatNone => exact Doc.alike_of_eq rfl fun _ _ _ _ => rfl
  | concatOne doc => exact concatOne_alike _
  | nestZero doc => exact nestZero_alike _
  | nestNest outer inner doc => exact nestNest_alike outer inner doc
  | nestConcat indent docs => exact nestConcat_alike indent docs
  | nestGroup indent doc => exact nestGroup_alike indent doc
  | groupGroup doc => exact groupGroup_alike doc
  | groupBreaking doc breaks => exact groupBreaking_alike _ breaks
  | fillNone => exact Doc.alike_of_eq rfl fun _ _ _ _ => rfl
  | fillOne doc => exact fillOne_alike doc
  | groupFill items => exact groupFill_alike items

/-! Neighbouring texts are drawn by two strokes or by one, and the written text is the same. -/

theorem texts_alike (left right : Text) :
    (Doc.concat [.text left, .text right]).Alike written (.text (left ++ right)) := by
  constructor
  · simp [Doc.flatColumns, flatColumnsAll, addColumns]
  · intro width indent mode cursor
    constructor
    · cases left <;> cases right <;>
        simp [Doc.drawAt, drawAll, Drawn.followedBy, Drawn.still, Cursor.text, Cursor.draw,
          pendingSpaces, Stroke.written]
    · simp only [Doc.drawAt, drawAll, Drawn.followedBy_cursor, Drawn.still_cursor,
        Cursor.text_cursor, Cursor.after_after, columns, List.length_append]

theorem joinedTexts_alike (before after : List Doc) (left right : Text) :
    (Doc.concat (before ++ .text left :: .text right :: after)).Alike written
      (.concat (before ++ .text (left ++ right) :: after)) := by
  have apart := (flatten_alike before [.text left, .text right] after).seen written
  have joined := Doc.Alike.concat written_append
    (forall₂_around (texts_alike left right) before after)
  exact apart.symm.trans joined

/-- Either side of a law may stand for the other one in every document: the layout hands over the
same strokes. Joining two neighbouring texts keeps the written text. -/
theorem Context.lay_law (context : Context) (width : Nat) :
    (∀ first second, Law first second →
        ((context.plug first).lay width).strokes = ((context.plug second).lay width).strokes) ∧
      ∀ before after left right,
        written ((context.plug
            (.concat (before ++ .text left :: .text right :: after))).lay width).strokes =
          written ((context.plug
            (.concat (before ++ .text (left ++ right) :: after))).lay width).strokes := by
  constructor
  · intro first second law
    have alike := context.plug_alike (fun _ _ => rfl) law.alike
    rw [Doc.lay_eq_drawAt, Doc.lay_eq_drawAt]
    exact (alike.drawn width 0 .broken (.start width)).view
  · intro before after left right
    have alike := context.plug_alike written_append (joinedTexts_alike before after left right)
    rw [Doc.lay_eq_drawAt, Doc.lay_eq_drawAt]
    exact (alike.drawn width 0 .broken (.start width)).view

theorem Context.lay_law_nested :
    let context : Context := .fill [.text ['a']] (.nest 2 (.group .hole)) [.text ['d']]
    let breaking : Doc := .concat [.text ['b'], .hardLine, .text ['c']]
    let items : List Doc := [.text ['b'], .group (.concat [.softLine, .text ['c']])]
    breaking.flatColumns = none ∧
      ((context.plug (.group breaking)).lay 3).strokes = ((context.plug breaking).lay 3).strokes ∧
      ((context.plug (.group (.fill items))).lay 6).strokes =
        ((context.plug (.fill items)).lay 6).strokes := by
  intro context breaking items
  exact ⟨rfl, (context.lay_law 3).1 _ _ (.groupBreaking breaking rfl),
    (context.lay_law 6).1 _ _ (.groupFill items)⟩

end CommentFormat
