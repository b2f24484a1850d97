import CommentFormat.Body.Marks
import CommentFormat.Layout.Room
import CommentFormat.Text.Lines

/-! Packing: the names of a group on as few tag lines as the page allows. -/

namespace CommentFormat

structure Packing where
  lines : List Text
  overlong : List Text
  peak : Nat
deriving DecidableEq, Repr

def Packing.reaching (packing : Packing) (width : Nat) (name : Text) (room : Room) : Packing :=
  ⟨packing.lines, (if width < room.used then [name] else []) ++ packing.overlong,
    max room.used packing.peak⟩

def Packing.afterLine (packing : Packing) (line : Text) : Packing :=
  ⟨line :: packing.lines, packing.overlong, packing.peak⟩

/-- Packs names behind the line that was begun. A name goes on with that line if it fits
there, and starts the next one otherwise. -/
def packOnto (width : Nat) (room : Room) (line : Text) : List Text → Packing
  | [] => ⟨[line], [], 0⟩
  | name :: rest =>
      let more := nameSeparator ++ name
      if room.fits (columns more) then
        let after := room.take (columns more)
        (packOnto width after (line ++ more) rest).reaching width name after
      else
        let fresh := tagOpening ++ name
        let after := (Room.startLine width 0).take (columns fresh)
        ((packOnto width after fresh rest).afterLine line).reaching width name after

/-- Packs names on lines of which the first starts at column `offset`. A group without names
still shows the tag word. -/
def Packing.ofNames (width offset : Nat) : List Text → Packing
  | [] => ⟨[tagWord], [], offset⟩
  | name :: rest =>
      let line := tagOpening ++ name
      let after := (Room.startLine width offset).take (columns line)
      (packOnto width after line rest).reaching width name after

end CommentFormat
