import CommentFormat.Proofs.Layout.Column
import CommentFormat.Proofs.Layout.Narrow
import CommentFormat.Proofs.Layout.Tokens

/-! Indentation: a line is moved in by the nests around the break that started it, and only if
something is drawn on it. -/

namespace CommentFormat

/-- A token, and the sum of the nests around it. -/
structure Site where
  indent : Nat
  token : Token
deriving DecidableEq, Repr

mutual

def Doc.sites (indent : Nat) : Doc → List Site
  | .nil => []
  | .text content => if content = [] then [] else [⟨indent, .text content⟩]
  | .hardLine => [⟨indent, .line⟩]
  | .softLine => [⟨indent, .gap⟩]
  | .concat docs => sitesAll indent docs
  | .nest more inner => inner.sites (indent + more)
  | .group inner => inner.sites indent
  | .fill [] => []
  | .fill (first :: rest) => first.sites indent ++ sitesBehind indent rest

def sitesAll (indent : Nat) : List Doc → List Site
  | [] => []
  | doc :: rest => doc.sites indent ++ sitesAll indent rest

def sitesBehind (indent : Nat) : List Doc → List Site
  | [] => []
  | next :: rest => ⟨indent, .gap⟩ :: (next.sites indent ++ sitesBehind indent rest)

end

def Frame.sites : Frame → List Site
  | .laying indent _ doc => doc.sites indent
  | .filling indent _ items => sitesBehind indent items

def stackSites (frames : List Frame) : List Site :=
  frames.flatMap Frame.sites

theorem stackSites_docs (indent : Nat) (mode : Mode) (docs : List Doc) :
    stackSites (docs.map (.laying indent mode)) = sitesAll indent docs := by
  induction docs with
  | nil => rfl
  | cons doc rest ih =>
      rw [stackSites] at ih ⊢
      rw [List.map_cons, List.flatMap_cons, ih]
      rfl

/-! One step. -/

/-- The strokes that sites are drawn with, from one pending indentation to another. A break leaves
the indentation of its own site to the first stroke behind it. -/
inductive Draws : Option Nat → List Site → List Stroke → Option Nat → Prop where
  | nil {pending : Option Nat} : Draws pending [] [] pending
  | onLine {pending after : Option Nat} {sites : List Site} {strokes : List Stroke} (indent : Nat)
      {token : Token} {call : Stroke} (shown : token.ShownBy call) (drawn : call ≠ .newline)
      (single : '\n' ∉ call.written) (behind : Draws none sites strokes after) :
      Draws pending (⟨indent, token⟩ :: sites) (pendingSpaces pending ++ call :: strokes) after
  | nextLine {pending after : Option Nat} {sites : List Site} {strokes : List Stroke} {indent : Nat}
      {token : Token} (breaks : token.ShownBy .newline)
      (behind : Draws (some indent) sites strokes after) :
      Draws pending (⟨indent, token⟩ :: sites) (.newline :: strokes) after

theorem Draws.append {pending between after : Option Nat} {sites more : List Site}
    {strokes others : List Stroke} (draws : Draws pending sites strokes between)
    (rest : Draws between more others after) :
    Draws pending (sites ++ more) (strokes ++ others) after := by
  induction draws with
  | nil => exact rest
  | onLine indent shown drawn single _ ih =>
      rw [List.append_assoc]
      exact .onLine indent shown drawn single (ih rest)
  | nextLine breaks _ ih => exact .nextLine breaks (ih rest)

theorem Cursor.text_draws (cursor : Cursor) (indent : Nat) (content : Text)
    (single : '\n' ∉ content) :
    Draws cursor.pending ((Doc.text content).sites indent) (cursor.text content).strokes
      (cursor.text content).cursor.pending := by
  rw [Cursor.text, Doc.sites]
  split
  · exact .nil
  · exact .onLine indent (.text content) (by simp) single .nil

theorem Cursor.space_draws (cursor : Cursor) (indent : Nat) :
    Draws cursor.pending [⟨indent, .gap⟩] cursor.space.strokes cursor.space.cursor.pending :=
  .onLine indent .space (by simp) (by simp [Stroke.written]) .nil

theorem newLine_draws (pending : Option Nat) (width indent : Nat) (token : Token)
    (breaks : token.ShownBy .newline) :
    Draws pending [⟨indent, token⟩] (newLine width indent).strokes
      (newLine width indent).cursor.pending :=
  .nextLine breaks .nil

theorem Cursor.gap_draws (cursor : Cursor) (width indent : Nat) (outer : Mode) (item : Doc) :
    Draws cursor.pending [⟨indent, .gap⟩] (cursor.gap width indent outer item).drawn.strokes
      (cursor.gap width indent outer item).drawn.cursor.pending := by
  unfold Cursor.gap
  dsimp only
  split
  · exact cursor.space_draws indent
  · exact newLine_draws cursor.pending width indent .gap .wrapped

theorem Frame.step_draws (width : Nat) (cursor : Cursor) (frame : Frame)
    (unbroken : frame.unbroken = true) :
    ∃ shown, frame.sites = shown ++ stackSites (frame.step width cursor).frames ∧
      Draws cursor.pending shown (frame.step width cursor).drawn.strokes
        (frame.step width cursor).drawn.cursor.pending := by
  cases frame with
  | laying indent mode doc =>
      cases doc with
      | nil => exact ⟨[], rfl, .nil⟩
      | text content =>
          have single : '\n' ∉ content := (onOneLine_iff content).mp unbroken
          exact ⟨_, (List.append_nil _).symm, cursor.text_draws indent content single⟩
      | hardLine =>
          exact ⟨[⟨indent, .line⟩], rfl, newLine_draws cursor.pending width indent .line .line⟩
      | softLine =>
          cases mode with
          | flat => exact ⟨[⟨indent, .gap⟩], rfl, cursor.space_draws indent⟩
          | broken =>
              exact ⟨[⟨indent, .gap⟩], rfl, newLine_draws cursor.pending width indent .gap .wrapped⟩
      | concat docs => exact ⟨[], (stackSites_docs indent mode docs).symm, .nil⟩
      | nest more inner => exact ⟨[], (List.append_nil _).symm, .nil⟩
      | group inner => exact ⟨[], (List.append_nil _).symm, .nil⟩
      | fill items =>
          cases items with
          | nil => exact ⟨[], rfl, .nil⟩
          | cons first rest =>
              exact ⟨[], by simp [Frame.step, stackSites, Frame.sites, Doc.sites], .nil⟩
  | filling indent mode items =>
      cases items with
      | nil => exact ⟨[], rfl, .nil⟩
      | cons next rest =>
          exact ⟨[⟨indent, .gap⟩], by simp [Frame.step, stackSites, Frame.sites, sitesBehind],
            cursor.gap_draws width indent mode next⟩

/-! A whole run. -/

theorem layFrames_draws (width : Nat) (frames : List Frame) (cursor : Cursor)
    (unbroken : ∀ frame ∈ frames, frame.unbroken = true) :
    Draws cursor.pending (stackSites frames) (layFrames width frames cursor).strokes
      (layFrames width frames cursor).cursor.pending := by
  fun_induction layFrames width frames cursor with
  | case1 cursor => exact .nil
  | case2 cursor frame rest step ih =>
      obtain ⟨shown, cut, draws⟩ := frame.step_draws width cursor (unbroken frame (by simp))
      have sites : stackSites (frame :: rest) = shown ++ stackSites (step.frames ++ rest) := by
        simp only [stackSites, List.flatMap_cons, List.flatMap_append] at cut ⊢
        rw [cut, List.append_assoc]
      rw [sites]
      exact draws.append (ih (stack_step_unbroken width cursor frame rest unbroken))

theorem Doc.lay_draws (doc : Doc) (width : Nat) (unbroken : doc.unbroken = true) :
    Draws none (doc.sites 0) (doc.lay width).strokes (doc.lay width).cursor.pending := by
  have draws := layFrames_draws width [.laying 0 .broken doc] (.start width)
    (by simpa [Frame.unbroken] using unbroken)
  rwa [stackSites, List.flatMap_singleton] at draws

/-! The lines. -/

def breakIndents (sites : List Site) (calls : List Stroke) : List Nat :=
  ((sites.zip calls).filter fun shown => shown.2 = .newline).map fun shown => shown.1.indent

def lineBehind (indent : Nat) (pieces : List Stroke) : Text :=
  if pieces = [] then [] else List.replicate indent ' ' ++ written pieces

/-- The calls between one line break and the next, each row of them behind the indentation of the
break in front of it, and the first row behind `indent`. -/
def shownLines (indent : Nat) (sites : List Site) (calls : List Stroke) : List Text :=
  List.zipWith lineBehind (indent :: breakIndents sites calls) (calls.splitOn .newline)

theorem lineBehind_zero (pieces : List Stroke) : lineBehind 0 pieces = written pieces := by
  unfold lineBehind
  split
  · next empty => rw [empty, written_nil]
  · simp

section Calls

variable (site : Site) (sites : List Site) (call : Stroke) (calls : List Stroke)

theorem breakIndents_newline :
    breakIndents (site :: sites) (.newline :: calls) = site.indent :: breakIndents sites calls := by
  simp [breakIndents]

theorem breakIndents_drawn (drawn : call ≠ .newline) :
    breakIndents (site :: sites) (call :: calls) = breakIndents sites calls := by
  simp [breakIndents, drawn]

theorem splitOn_newline_cons :
    (Stroke.newline :: calls).splitOn .newline = [] :: calls.splitOn .newline := by
  rw [List.splitOn_cons_eq_if_modifyHead, if_pos (by simp)]

theorem splitOn_drawn_cons (drawn : call ≠ .newline) :
    (call :: calls).splitOn .newline = (calls.splitOn .newline).modifyHead (call :: ·) := by
  rw [List.splitOn_cons_eq_if_modifyHead, if_neg (by simpa using drawn)]

theorem shownLines_newline (indent : Nat) :
    shownLines indent (site :: sites) (.newline :: calls) =
      [] :: shownLines site.indent sites calls := by
  rw [shownLines, splitOn_newline_cons, breakIndents_newline, List.zipWith_cons_cons]
  rfl

theorem shownLines_drawn (indent : Nat) (drawn : call ≠ .newline) :
    shownLines indent (site :: sites) (call :: calls) =
      (shownLines 0 sites calls).modifyHead (List.replicate indent ' ' ++ call.written ++ ·) := by
  obtain ⟨pieces, rest, cut⟩ :=
    List.exists_cons_of_ne_nil (List.splitOn_ne_nil Stroke.newline calls)
  rw [shownLines, shownLines, splitOn_drawn_cons call calls drawn,
    breakIndents_drawn site sites call calls drawn, cut, List.modifyHead_cons,
    List.zipWith_cons_cons, List.zipWith_cons_cons, List.modifyHead_cons, lineBehind_zero]
  simp [lineBehind]

theorem unindentedFrom_drawn (pending : Option Nat) (strokes : List Stroke)
    (drawn : call ≠ .newline) :
    unindentedFrom pending.isSome (pendingSpaces pending ++ call :: strokes) =
      call :: unindentedFrom false strokes := by
  cases call with
  | newline => contradiction
  | text content => cases pending <;> rfl
  | spaces count => cases pending <;> rfl

end Calls

theorem length_breakIndents {sites : List Site} {calls : List Stroke}
    (shown : List.Forall₂ (fun site call => site.token.ShownBy call) sites calls) :
    (calls.splitOn .newline).length = (breakIndents sites calls).length + 1 := by
  induction shown with
  | nil => rfl
  | @cons site call sites calls _ _ ih =>
      by_cases breaks : call = .newline
      · rw [breaks, splitOn_newline_cons, breakIndents_newline, List.length_cons, ih,
          List.length_cons]
      · rw [splitOn_drawn_cons call calls breaks, breakIndents_drawn site sites call calls breaks,
          List.length_modifyHead, ih]

theorem splitOn_append_line (line more : Text) (single : '\n' ∉ line) :
    (line ++ more).splitOn '\n' = (more.splitOn '\n').modifyHead (line ++ ·) := by
  induction line with
  | nil =>
      obtain ⟨first, rest, cut⟩ := List.exists_cons_of_ne_nil (List.splitOn_ne_nil '\n' more)
      simp [cut]
  | cons character line ih =>
      rw [List.mem_cons, not_or] at single
      have inside : ¬ (character == '\n') = true := by
        simpa using fun same => single.1 same.symm
      rw [List.cons_append, List.splitOn_cons_eq_if_modifyHead, if_neg inside, ih single.2,
        List.modifyHead_modifyHead]
      rfl

theorem splitOn_written_drawn (pending : Option Nat) (call : Stroke) (strokes : List Stroke)
    (single : '\n' ∉ call.written) :
    (written (pendingSpaces pending ++ call :: strokes)).splitOn '\n' =
      ((written strokes).splitOn '\n').modifyHead
        (List.replicate (pending.getD 0) ' ' ++ call.written ++ ·) := by
  have lead : written (pendingSpaces pending) = List.replicate (pending.getD 0) ' ' := by
    cases pending <;> simp [pendingSpaces, Stroke.written]
  rw [written_append, written_cons, lead, ← List.append_assoc]
  exact splitOn_append_line _ _ (by simp [single])

namespace Draws

variable {pending after : Option Nat} {sites : List Site} {strokes : List Stroke}

theorem shownBy (draws : Draws pending sites strokes after) :
    List.Forall₂ (fun site call => site.token.ShownBy call) sites
      (unindentedFrom pending.isSome strokes) := by
  induction draws with
  | nil => exact .nil
  | @onLine pending _ _ strokes _ _ call shown drawn _ _ ih =>
      rw [unindentedFrom_drawn call pending strokes drawn]
      exact .cons shown ih
  | nextLine breaks _ ih => exact .cons breaks ih

theorem splitOn_written (draws : Draws pending sites strokes after) :
    (written strokes).splitOn '\n' =
      shownLines (pending.getD 0) sites (unindentedFrom pending.isSome strokes) := by
  induction draws with
  | nil => rfl
  | @onLine pending _ sites strokes indent token call _ drawn single _ ih =>
      rw [splitOn_written_drawn pending call strokes single, ih,
        unindentedFrom_drawn call pending strokes drawn, shownLines_drawn _ _ _ _ _ drawn]
      rfl
  | nextLine _ _ ih =>
      rw [unindentedFrom, shownLines_newline, written_cons, Stroke.written, List.singleton_append,
        List.splitOn_cons_eq_if_modifyHead, if_pos (by simp), ih]
      rfl

end Draws

/-- One stroke shows each site of the document. Cut at the line breaks, these strokes are the lines
of the text. A line on which there are none is empty, and every other one stands behind as many
spaces as the nests around the break that started it add up to, the first line behind none. -/
theorem Doc.lay_indented (doc : Doc) (width : Nat) (unbroken : doc.unbroken = true) :
    let strokes := (doc.lay width).strokes
    let calls := unindented strokes
    List.Forall₂ (fun site call => site.token.ShownBy call) (doc.sites 0) calls ∧
      (calls.splitOn .newline).length = (breakIndents (doc.sites 0) calls).length + 1 ∧
      (written strokes).splitOn '\n' = shownLines 0 (doc.sites 0) calls ∧
      ((doc.lay width).peak < columnLimit → doc.render? ⟨width⟩ = .ok (written strokes)) := by
  have draws := doc.lay_draws width unbroken
  refine ⟨draws.shownBy, length_breakIndents draws.shownBy, draws.splitOn_written, ?_⟩
  intro kept
  exact (doc.render?_eq_ok_iff ⟨width⟩ _).mpr ⟨kept, rfl⟩

theorem Doc.lay_indented_pending :
    let doc : Doc := .concat [.text ['a'], .nest 2 (.concat [.hardLine, .nest 3 .softLine]),
      .fill [.text ['b', 'c'], .text ['d']]]
    doc.unbroken = true ∧
      doc.sites 0 = [⟨0, .text ['a']⟩, ⟨2, .line⟩, ⟨5, .gap⟩, ⟨0, .text ['b', 'c']⟩, ⟨0, .gap⟩,
        ⟨0, .text ['d']⟩] ∧
      (written (doc.lay 4).strokes).splitOn '\n' =
        [['a'], [], [' ', ' ', ' ', ' ', ' ', 'b', 'c'], ['d']] := by
  refine ⟨by decide, by decide, ?_⟩
  obtain ⟨-, -, lines, -⟩ := Doc.lay_indented
    (.concat [.text ['a'], .nest 2 (.concat [.hardLine, .nest 3 .softLine]),
      .fill [.text ['b', 'c'], .text ['d']]]) 4 (by decide)
  rw [lines, Doc.lay_eq_drawAt]
  decide

end CommentFormat
