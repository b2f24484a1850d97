import CommentFormat.Comment

/-! The journal: what reading and printing a comment has to say about it, in order. -/

namespace CommentFormat

inductive Report where
  | parsed (parts : Nat)
  | repeatedNames (names : List Text)
  | overlongName (name : Text) (width : Nat)
deriving DecidableEq, Repr

def Report.message : Report → String
  | .parsed _ => "parsed comment"
  | .repeatedNames _ => "tag group lists names more than once"
  | .overlongName _ _ => "tag name overflows line width"

inductive Stage where
  | parsing (kind : Kind) (bytes baseIndent : Nat)
  | printing (kind : Kind) (width parts : Nat)
  | arranging (parts width offset : Nat)
  | rendering (width : Nat)
deriving DecidableEq, Repr

inductive Event where
  | entered (stage : Stage)
  | noted (report : Report)
deriving DecidableEq, Repr

abbrev Journal := List Event

end CommentFormat
