import CommentFormat.Fault

/-! Room on a line: the columns that are free and those that are used. -/

namespace CommentFormat

/-- A line that runs past the page goes on counting used columns while none is free. -/
structure Room where
  free : Nat
  used : Nat
deriving DecidableEq, Repr

def Room.ofWidth (width : Nat) : Room :=
  ⟨width, 0⟩

def Room.take (room : Room) (count : Nat) : Room :=
  ⟨room.free - count, room.used + count⟩

def Room.fits (room : Room) (count : Nat) : Bool :=
  count ≤ room.free

def Room.startLine (width indent : Nat) : Room :=
  (Room.ofWidth width).take indent

def Room.take? (room : Room) (count : Nat) : Except Fault Room :=
  withinColumns (room.used + count) (room.take count)

@[simp] theorem Room.take_used (room : Room) (count : Nat) :
    (room.take count).used = room.used + count := rfl

@[simp] theorem Room.take_free (room : Room) (count : Nat) :
    (room.take count).free = room.free - count := rfl

def Room.On (width : Nat) (room : Room) : Prop :=
  room.free = width - room.used

theorem Room.ofWidth_on (width : Nat) : (Room.ofWidth width).On width := by
  simp [Room.On, Room.ofWidth]

theorem Room.take_on (width : Nat) (room : Room) (count : Nat) (line : room.On width) :
    (room.take count).On width := by
  simp only [Room.On, Room.take] at line ⊢
  omega

theorem Room.startLine_on (width indent : Nat) : (Room.startLine width indent).On width :=
  Room.take_on width _ indent (Room.ofWidth_on width)

end CommentFormat
