import CommentFormat.Layout.Doc
import CommentFormat.Layout.Room
import CommentFormat.Layout.Stroke

/-! The cursor: where on its line a layout stands, and what it draws from there. -/

namespace CommentFormat

inductive Mode where
  | flat
  | broken
deriving DecidableEq, Repr

/-- An indentation stays pending until something is drawn on its line, so that a line on
which nothing is drawn stays empty. -/
structure Cursor where
  room : Room
  pending : Option Nat
deriving DecidableEq, Repr

def Cursor.start (width : Nat) : Cursor :=
  ⟨Room.ofWidth width, none⟩

/-- A stretch of drawing: its strokes, the largest column number formed for it, and the
cursor it ends at. -/
structure Drawn where
  strokes : List Stroke
  peak : Nat
  cursor : Cursor
deriving DecidableEq, Repr

def Drawn.still (cursor : Cursor) : Drawn :=
  ⟨[], 0, cursor⟩

def Drawn.followedBy (first second : Drawn) : Drawn :=
  ⟨first.strokes ++ second.strokes, max first.peak second.peak, second.cursor⟩

def Drawn.forming (column : Nat) (drawn : Drawn) : Drawn :=
  ⟨drawn.strokes, max column drawn.peak, drawn.cursor⟩

@[simp] theorem Drawn.followedBy_cursor (first second : Drawn) :
    (first.followedBy second).cursor = second.cursor := rfl

@[simp] theorem Drawn.forming_cursor (column : Nat) (drawn : Drawn) :
    (drawn.forming column).cursor = drawn.cursor := rfl

@[simp] theorem Drawn.still_cursor (cursor : Cursor) : (Drawn.still cursor).cursor = cursor := rfl

theorem Drawn.followedBy_assoc (first second third : Drawn) :
    (first.followedBy second).followedBy third = first.followedBy (second.followedBy third) := by
  simp [Drawn.followedBy, Nat.max_assoc]

@[simp] theorem Drawn.followedBy_still (drawn : Drawn) (cursor : Cursor)
    (same : drawn.cursor = cursor) : drawn.followedBy (.still cursor) = drawn := by
  cases drawn
  simp_all [Drawn.followedBy, Drawn.still]

@[simp] theorem Drawn.still_followedBy (cursor : Cursor) (drawn : Drawn) :
    (Drawn.still cursor).followedBy drawn = drawn := by
  simp [Drawn.followedBy, Drawn.still]

theorem Drawn.forming_followedBy (column : Nat) (first second : Drawn) :
    (first.forming column).followedBy second = (first.followedBy second).forming column := by
  simp [Drawn.followedBy, Drawn.forming, Nat.max_assoc]

def pendingSpaces : Option Nat → List Stroke
  | none => []
  | some indent => [.spaces indent]

def Cursor.draw (cursor : Cursor) (stroke : Stroke) (count : Nat) : Drawn :=
  let room := cursor.room.take count
  ⟨pendingSpaces cursor.pending ++ [stroke], room.used, ⟨room, none⟩⟩

def Cursor.text (cursor : Cursor) (content : Text) : Drawn :=
  if content = [] then .still cursor else cursor.draw (.text content) (columns content)

def Cursor.space (cursor : Cursor) : Drawn :=
  cursor.draw (.spaces 1) 1

def newLine (width indent : Nat) : Drawn :=
  ⟨[.newline], indent, ⟨Room.startLine width indent, some indent⟩⟩

def Cursor.softLine (cursor : Cursor) (width indent : Nat) : Mode → Drawn
  | .flat => cursor.space
  | .broken => newLine width indent

structure Choice where
  mode : Mode
  peak : Nat
deriving DecidableEq, Repr

def Room.choose (room : Room) (outer : Mode) (doc : Doc) (lead : Nat) : Choice :=
  match outer with
  | .flat => ⟨.flat, 0⟩
  | .broken =>
      match doc.flatColumns with
      | none => ⟨.broken, doc.flatPeak⟩
      | some width =>
          ⟨if room.fits (lead + width) then .flat else .broken, max doc.flatPeak (lead + width)⟩

structure Gap where
  drawn : Drawn
  mode : Mode
deriving DecidableEq, Repr

/-- An item goes after a space if it fits there, and on a line of its own otherwise. -/
def Cursor.gap (cursor : Cursor) (width indent : Nat) (outer : Mode) (item : Doc) : Gap :=
  let beside := cursor.room.choose outer item 1
  match beside.mode with
  | .flat => ⟨cursor.space.forming beside.peak, .flat⟩
  | .broken =>
      let below := (Room.startLine width indent).choose outer item 0
      ⟨(newLine width indent).forming (max beside.peak below.peak), below.mode⟩

end CommentFormat
