import CommentFormat.Body
import CommentFormat.Print

/-! Formatting: a comment text is stripped, read and printed again. -/

namespace CommentFormat

inductive Round (kind : Kind) where
  | undelimited
  | unprinted (parsed : Parsed kind) (error : PageError)
  | printed (parsed : Parsed kind) (printed : Printed)
deriving DecidableEq, Repr

def formatOnce? (kind : Kind) (baseIndent : Nat) (page : Except PageError Page) (text : Text) :
    Except Fault (Round kind) :=
  match bodyOf? text with
  | none => return .undelimited
  | some body => do
      let parsed ← parse? kind baseIndent body
      match page with
      | .error error => return .unprinted parsed error
      | .ok page => return .printed parsed (← parsed.comment.print? page)

def formatRounds? (kind : Kind) (baseIndent : Nat) (page : Except PageError Page) :
    Nat → Text → Except Fault (List (Round kind))
  | 0, _ => return []
  | count + 1, text => do
      match ← formatOnce? kind baseIndent page text with
      | .printed parsed printed =>
          let later ← formatRounds? kind baseIndent page count printed.text
          return .printed parsed printed :: later
      | last => return [last]

end CommentFormat
