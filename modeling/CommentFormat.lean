import CommentFormat.Body
import CommentFormat.Body.Block
import CommentFormat.Body.Line
import CommentFormat.Body.Marks
import CommentFormat.Comment
import CommentFormat.Fault
import CommentFormat.Format
import CommentFormat.Journal
import CommentFormat.Layout.Cursor
import CommentFormat.Layout.Doc
import CommentFormat.Layout.Machine
import CommentFormat.Layout.Recursive
import CommentFormat.Layout.Room
import CommentFormat.Layout.Stroke
import CommentFormat.Page
import CommentFormat.Print
import CommentFormat.Proofs.Body.Extent
import CommentFormat.Proofs.Body.Image
import CommentFormat.Proofs.Body.Line
import CommentFormat.Proofs.Body.Margin
import CommentFormat.Proofs.Body.Names
import CommentFormat.Proofs.Body.NormalForm
import CommentFormat.Proofs.Body.Pieces
import CommentFormat.Proofs.Body.Presentation
import CommentFormat.Proofs.Body.Reading
import CommentFormat.Proofs.Body.TabStops
import CommentFormat.Proofs.Layout.Algebra
import CommentFormat.Proofs.Layout.Checked
import CommentFormat.Proofs.Layout.Column
import CommentFormat.Proofs.Layout.Fewest
import CommentFormat.Proofs.Layout.Flat
import CommentFormat.Proofs.Layout.FlatMode
import CommentFormat.Proofs.Layout.Greedy
import CommentFormat.Proofs.Layout.Indentation
import CommentFormat.Proofs.Layout.Narrow
import CommentFormat.Proofs.Layout.Reach
import CommentFormat.Proofs.Layout.Running
import CommentFormat.Proofs.Layout.Tokens
import CommentFormat.Proofs.Layout.Wrap
import CommentFormat.Proofs.Layout.Writing
import CommentFormat.Proofs.Print.Blocks
import CommentFormat.Proofs.Print.Fences
import CommentFormat.Proofs.Print.Flowed
import CommentFormat.Proofs.Print.Idempotence
import CommentFormat.Proofs.Print.LineCount
import CommentFormat.Proofs.Print.Narrow
import CommentFormat.Proofs.Print.Overlong
import CommentFormat.Proofs.Print.Reach
import CommentFormat.Proofs.Print.Refusal
import CommentFormat.Proofs.Print.Reread
import CommentFormat.Proofs.Print.RoundTrip
import CommentFormat.Proofs.Print.Rows
import CommentFormat.Proofs.Print.Separate
import CommentFormat.Proofs.Print.Width
import CommentFormat.Proofs.Print.Written
import CommentFormat.Proofs.Prose.Cut
import CommentFormat.Proofs.Prose.Fences
import CommentFormat.Proofs.Prose.Marks
import CommentFormat.Proofs.Prose.Passages
import CommentFormat.Proofs.Prose.Reflow
import CommentFormat.Proofs.Prose.Runs
import CommentFormat.Proofs.Prose.Sections
import CommentFormat.Proofs.Tags.Adjacency
import CommentFormat.Proofs.Tags.Decoding
import CommentFormat.Proofs.Tags.Filling
import CommentFormat.Proofs.Tags.Groups
import CommentFormat.Proofs.Tags.Repeats
import CommentFormat.Proofs.Text.Extent
import CommentFormat.Proofs.Text.Lines
import CommentFormat.Proofs.Text.Opening
import CommentFormat.Prose.Flow
import CommentFormat.Prose.Passage
import CommentFormat.Tags.Arrangement
import CommentFormat.Tags.Merge
import CommentFormat.Tags.Packing
import CommentFormat.Text.CodeRanges
import CommentFormat.Text.Extender
import CommentFormat.Text.Lines
import CommentFormat.Text.Quoted
import CommentFormat.Text.Space
import CommentFormat.Text.Unassigned
import CommentFormat.Text.Words
