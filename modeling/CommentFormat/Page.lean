/-! The page: how wide a line may become, and how far nested blocks are moved in. -/

namespace CommentFormat

structure Page where
  width : Nat
deriving DecidableEq, Repr

def standardWidth : Nat :=
  80

def indentStep : Nat :=
  4

def Page.standard : Page :=
  ⟨standardWidth⟩

instance : Inhabited Page :=
  ⟨Page.standard⟩

inductive PageError where
  | zeroWidth
deriving DecidableEq, Repr

def PageError.message : PageError → String
  | .zeroWidth => "line width must be at least 1 column"

def Page.ofWidth? (width : Nat) : Except PageError Page :=
  if width = 0 then .error .zeroWidth else .ok ⟨width⟩

end CommentFormat
