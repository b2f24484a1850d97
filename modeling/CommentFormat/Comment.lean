import CommentFormat.Text.Quoted

/-! Comments: an ordered list of parts, of a kind that only the type records. -/

namespace CommentFormat

inductive Kind where
  | doc
  | file
deriving DecidableEq, Repr

def Kind.name : Kind → String
  | .doc => "doc"
  | .file => "file"

inductive Part where
  | prose (text : Text)
  | code (text : Text)
  | tags (names : List Text)
deriving DecidableEq, Repr

structure Comment (kind : Kind) where
  parts : List Part
deriving DecidableEq, Repr

def Comment.empty (kind : Kind) : Comment kind :=
  ⟨[]⟩

instance (kind : Kind) : Inhabited (Comment kind) :=
  ⟨.empty kind⟩

def Comment.add {kind : Kind} (comment : Comment kind) (part : Part) : Comment kind :=
  ⟨comment.parts ++ [part]⟩

def Comment.extend {kind : Kind} (comment : Comment kind) (parts : List Part) : Comment kind :=
  ⟨comment.parts ++ parts⟩

def Comment.ofParts (kind : Kind) (parts : List Part) : Comment kind :=
  parts.foldl .add (.empty kind)

def Comment.size {kind : Kind} (comment : Comment kind) : Nat :=
  comment.parts.length

def Comment.isEmpty {kind : Kind} (comment : Comment kind) : Bool :=
  comment.parts.isEmpty

theorem foldl_add_parts {kind : Kind} (parts : List Part) (comment : Comment kind) :
    (parts.foldl .add comment).parts = comment.parts ++ parts := by
  induction parts generalizing comment with
  | nil => simp
  | cons part rest ih => simp [ih, Comment.add]

@[simp] theorem Comment.ofParts_parts (kind : Kind) (parts : List Part) :
    (Comment.ofParts kind parts).parts = parts := by
  simp [Comment.ofParts, foldl_add_parts, Comment.empty]

def Part.describe : Part → Text
  | .prose text => "Markdown(".toList ++ quoted text ++ [')']
  | .code text => "Code(".toList ++ quoted text ++ [')']
  | .tags names => "DocTags(".toList ++ quotedList names ++ [')']

def Comment.describe {kind : Kind} (comment : Comment kind) : Text :=
  "Comment \x7b kind: ".toList ++ quoted kind.name.toList ++ ", parts: ".toList ++
    bracketed (comment.parts.map Part.describe) ++ " \x7d".toList

end CommentFormat
