import CommentFormat.Layout.Recursive
import Mathlib.Data.List.Forall2

/-! Tokens: what a document holds, from left to right. At every width a layout shows each token of
its document once, in order, and nothing else but indentation. -/

namespace CommentFormat

inductive Token where
  | text (content : Text)
  | line
  | gap
deriving DecidableEq, Repr

mutual

def Doc.tokens : Doc → List Token
  | .nil => []
  | .text content => if content = [] then [] else [.text content]
  | .hardLine => [.line]
  | .softLine => [.gap]
  | .concat docs => tokensAll docs
  | .nest _ inner => inner.tokens
  | .group inner => inner.tokens
  | .fill [] => []
  | .fill (first :: rest) => first.tokens ++ tokensBehind rest

def tokensAll : List Doc → List Token
  | [] => []
  | doc :: rest => doc.tokens ++ tokensAll rest

def tokensBehind : List Doc → List Token
  | [] => []
  | next :: rest => .gap :: (next.tokens ++ tokensBehind rest)

end

def Frame.tokens : Frame → List Token
  | .laying _ _ doc => doc.tokens
  | .filling _ _ items => tokensBehind items

def stackTokens (frames : List Frame) : List Token :=
  frames.flatMap Frame.tokens

theorem stackTokens_docs (indent : Nat) (mode : Mode) (docs : List Doc) :
    stackTokens (docs.map (.laying indent mode)) = tokensAll docs := by
  induction docs with
  | nil => rfl
  | cons doc rest ih =>
      rw [stackTokens] at ih ⊢
      rw [List.map_cons, List.flatMap_cons, ih]
      rfl

inductive Token.ShownBy : Token → Stroke → Prop where
  | text (content : Text) : Token.ShownBy (.text content) (.text content)
  | line : Token.ShownBy .line .newline
  | space : Token.ShownBy .gap (.spaces 1)
  | wrapped : Token.ShownBy .gap .newline

/-- Strokes without the indentation of their lines. It is handed over behind a line break and before
anything else, even if it has no columns. -/
def unindentedFrom (lineStart : Bool) : List Stroke → List Stroke
  | [] => []
  | .newline :: rest => .newline :: unindentedFrom true rest
  | .text content :: rest => .text content :: unindentedFrom false rest
  | .spaces count :: rest =>
      if lineStart then unindentedFrom false rest else .spaces count :: unindentedFrom false rest

def unindented (strokes : List Stroke) : List Stroke :=
  unindentedFrom false strokes

/-! One step. -/

def Shows (cursor : Cursor) (drawn : Drawn) (tokens : List Token) : Prop :=
  ∃ calls, List.Forall₂ Token.ShownBy tokens calls ∧
    ∀ later, unindentedFrom cursor.pending.isSome (drawn.strokes ++ later) =
      calls ++ unindentedFrom drawn.cursor.pending.isSome later

theorem shows_still (cursor : Cursor) : Shows cursor (.still cursor) [] :=
  ⟨[], .nil, fun _ => rfl⟩

theorem Shows.followedBy {cursor : Cursor} {first second : Drawn} {tokens more : List Token}
    (shows : Shows cursor first tokens) (behind : Shows first.cursor second more) :
    Shows cursor (first.followedBy second) (tokens ++ more) := by
  obtain ⟨calls, shown, cut⟩ := shows
  obtain ⟨others, othersShown, othersCut⟩ := behind
  refine ⟨calls ++ others, List.rel_append shown othersShown, ?_⟩
  intro later
  rw [Drawn.followedBy, List.append_assoc, cut, othersCut, List.append_assoc]

theorem Cursor.text_shows (cursor : Cursor) (content : Text) :
    Shows cursor (cursor.text content) (Doc.text content).tokens := by
  rw [Cursor.text, Doc.tokens]
  split
  · exact shows_still cursor
  · refine ⟨[.text content], .cons (.text content) .nil, ?_⟩
    intro later
    cases pending : cursor.pending <;> simp [Cursor.draw, pendingSpaces, pending, unindentedFrom]

theorem Cursor.space_shows (cursor : Cursor) : Shows cursor cursor.space [.gap] := by
  refine ⟨[.spaces 1], .cons .space .nil, ?_⟩
  intro later
  cases pending : cursor.pending <;>
    simp [Cursor.space, Cursor.draw, pendingSpaces, pending, unindentedFrom]

theorem newLine_shows (cursor : Cursor) (width indent : Nat) (token : Token)
    (breaks : token.ShownBy .newline) : Shows cursor (newLine width indent) [token] :=
  ⟨[.newline], .cons breaks .nil, fun _ => rfl⟩

theorem Cursor.gap_shows (cursor : Cursor) (width indent : Nat) (outer : Mode) (item : Doc) :
    Shows cursor (cursor.gap width indent outer item).drawn [.gap] := by
  unfold Cursor.gap
  dsimp only
  split
  · exact cursor.space_shows
  · exact newLine_shows cursor width indent .gap .wrapped

theorem Frame.step_shows (width : Nat) (cursor : Cursor) (frame : Frame) :
    ∃ shown, frame.tokens = shown ++ stackTokens (frame.step width cursor).frames ∧
      Shows cursor (frame.step width cursor).drawn shown := by
  cases frame with
  | laying indent mode doc =>
      cases doc with
      | nil => exact ⟨[], rfl, shows_still cursor⟩
      | text content => exact ⟨_, (List.append_nil _).symm, cursor.text_shows content⟩
      | hardLine => exact ⟨[.line], rfl, newLine_shows cursor width indent .line .line⟩
      | softLine =>
          cases mode with
          | flat => exact ⟨[.gap], rfl, cursor.space_shows⟩
          | broken => exact ⟨[.gap], rfl, newLine_shows cursor width indent .gap .wrapped⟩
      | concat docs => exact ⟨[], (stackTokens_docs indent mode docs).symm, shows_still cursor⟩
      | nest more inner => exact ⟨[], (List.append_nil _).symm, shows_still cursor⟩
      | group inner => exact ⟨[], (List.append_nil _).symm, shows_still cursor⟩
      | fill items =>
          cases items with
          | nil => exact ⟨[], rfl, shows_still cursor⟩
          | cons first rest =>
              exact ⟨[], by simp [Frame.step, stackTokens, Frame.tokens, Doc.tokens],
                shows_still cursor⟩
  | filling indent mode items =>
      cases items with
      | nil => exact ⟨[], rfl, shows_still cursor⟩
      | cons next rest =>
          exact ⟨[.gap], by simp [Frame.step, stackTokens, Frame.tokens, tokensBehind],
            cursor.gap_shows width indent mode next⟩

/-! A whole run. -/

theorem layFrames_shows (width : Nat) (frames : List Frame) (cursor : Cursor) :
    Shows cursor (layFrames width frames cursor) (stackTokens frames) := by
  fun_induction layFrames width frames cursor with
  | case1 cursor => exact shows_still cursor
  | case2 cursor frame rest step ih =>
      obtain ⟨shown, cut, shows⟩ := frame.step_shows width cursor
      have tokens : stackTokens (frame :: rest) = shown ++ stackTokens (step.frames ++ rest) := by
        simp only [stackTokens, List.flatMap_cons, List.flatMap_append] at cut ⊢
        rw [cut, List.append_assoc]
      rw [tokens]
      exact shows.followedBy ih

/-! The pieces of text. -/

def Token.fragment? : Token → Option Text
  | .text content => some content
  | _ => none

def Stroke.fragment? : Stroke → Option Text
  | .text content => some content
  | _ => none

def fragments (strokes : List Stroke) : List Text :=
  strokes.filterMap Stroke.fragment?

theorem fragments_unindentedFrom (strokes : List Stroke) (lineStart : Bool) :
    fragments (unindentedFrom lineStart strokes) = fragments strokes := by
  induction strokes generalizing lineStart with
  | nil => rfl
  | cons stroke rest ih =>
      cases stroke with
      | text content => exact congrArg (content :: ·) (ih false)
      | newline => exact ih true
      | spaces count => cases lineStart <;> exact ih false

theorem fragments_of_shown {tokens : List Token} {calls : List Stroke}
    (shown : List.Forall₂ Token.ShownBy tokens calls) :
    fragments calls = tokens.filterMap Token.fragment? := by
  induction shown with
  | nil => rfl
  | cons here behind ih =>
      cases here with
      | text content => exact congrArg (content :: ·) ih
      | line => exact ih
      | space => exact ih
      | wrapped => exact ih

theorem Doc.lay_shows (doc : Doc) (width : Nat) :
    List.Forall₂ Token.ShownBy doc.tokens (unindented (doc.lay width).strokes) := by
  obtain ⟨calls, shown, cut⟩ := layFrames_shows width [.laying 0 .broken doc] (.start width)
  have all : unindented (doc.lay width).strokes = calls := by
    have whole := cut []
    rwa [List.append_nil, unindentedFrom, List.append_nil] at whole
  rw [all]
  simpa [stackTokens, Frame.tokens] using shown

/-- At every width the strokes are the tokens of the document in order, one stroke for each token,
and indentation. So the pieces of text are the same at all widths. -/
theorem Doc.lay_tokens (doc : Doc) :
    (∀ width, List.Forall₂ Token.ShownBy doc.tokens (unindented (doc.lay width).strokes)) ∧
      ∀ width other, fragments (doc.lay width).strokes = fragments (doc.lay other).strokes := by
  have same (width : Nat) :
      fragments (doc.lay width).strokes = doc.tokens.filterMap Token.fragment? := by
    rw [← fragments_of_shown (doc.lay_shows width), unindented, fragments_unindentedFrom]
  exact ⟨doc.lay_shows, fun width other => (same width).trans (same other).symm⟩

end CommentFormat
