import Scriptlet.Builtin
import Scriptlet.CommandLine.Arguments
import Scriptlet.CommandLine.BuiltIn
import Scriptlet.CommandLine.Folder
import Scriptlet.CommandLine.Path
import Scriptlet.CommandLine.Response
import Scriptlet.Entries
import Scriptlet.Eval.Evaluate
import Scriptlet.Eval.Exit
import Scriptlet.Eval.Operation
import Scriptlet.Eval.Session
import Scriptlet.Eval.Stack
import Scriptlet.Execution
import Scriptlet.Main
import Scriptlet.Node
import Scriptlet.Node.Description
import Scriptlet.Node.Equality
import Scriptlet.Node.Outline
import Scriptlet.Operator
import Scriptlet.Platform
import Scriptlet.Proofs.Acceptance
import Scriptlet.Proofs.Accumulation
import Scriptlet.Proofs.Appearance
import Scriptlet.Proofs.Arithmetic
import Scriptlet.Proofs.Blame
import Scriptlet.Proofs.Blocks
import Scriptlet.Proofs.Calculation
import Scriptlet.Proofs.Captured
import Scriptlet.Proofs.Carried
import Scriptlet.Proofs.Carrying
import Scriptlet.Proofs.Code
import Scriptlet.Proofs.Comments
import Scriptlet.Proofs.Comparison
import Scriptlet.Proofs.Completion
import Scriptlet.Proofs.Conversion
import Scriptlet.Proofs.Course
import Scriptlet.Proofs.Cutoff
import Scriptlet.Proofs.Declaration
import Scriptlet.Proofs.Depth
import Scriptlet.Proofs.Division
import Scriptlet.Proofs.Entering
import Scriptlet.Proofs.Fields
import Scriptlet.Proofs.Frames
import Scriptlet.Proofs.Grammar
import Scriptlet.Proofs.Growth
import Scriptlet.Proofs.Guarded
import Scriptlet.Proofs.Height
import Scriptlet.Proofs.Idle
import Scriptlet.Proofs.Indentation
import Scriptlet.Proofs.Inversion
import Scriptlet.Proofs.Isolation
import Scriptlet.Proofs.Joining
import Scriptlet.Proofs.Language
import Scriptlet.Proofs.Layout
import Scriptlet.Proofs.Leading
import Scriptlet.Proofs.Legibility
import Scriptlet.Proofs.Lines
import Scriptlet.Proofs.Listing
import Scriptlet.Proofs.Literals
import Scriptlet.Proofs.Location
import Scriptlet.Proofs.Moment
import Scriptlet.Proofs.Nesting
import Scriptlet.Proofs.Operators
import Scriptlet.Proofs.Options
import Scriptlet.Proofs.Persistence
import Scriptlet.Proofs.Plain
import Scriptlet.Proofs.Precedence
import Scriptlet.Proofs.Purity
import Scriptlet.Proofs.Quoting
import Scriptlet.Proofs.Regular
import Scriptlet.Proofs.Relining
import Scriptlet.Proofs.Relocation
import Scriptlet.Proofs.Rendering
import Scriptlet.Proofs.Resolution
import Scriptlet.Proofs.Routes
import Scriptlet.Proofs.Running
import Scriptlet.Proofs.Sameness
import Scriptlet.Proofs.Sealed
import Scriptlet.Proofs.Sealing
import Scriptlet.Proofs.Seam
import Scriptlet.Proofs.Separation
import Scriptlet.Proofs.Settling
import Scriptlet.Proofs.Shadowing
import Scriptlet.Proofs.Soundness
import Scriptlet.Proofs.Spacing
import Scriptlet.Proofs.Spelling
import Scriptlet.Proofs.Takes
import Scriptlet.Proofs.Terminal
import Scriptlet.Proofs.Tiling
import Scriptlet.Proofs.Towers
import Scriptlet.Proofs.Tracing
import Scriptlet.Proofs.Translation
import Scriptlet.Proofs.Turn
import Scriptlet.Proofs.Unfolding
import Scriptlet.Proofs.Unwinding
import Scriptlet.Proofs.Watching
import Scriptlet.Proofs.WellFormed
import Scriptlet.Source.Error
import Scriptlet.Source.Phrase
import Scriptlet.Source.Piece
import Scriptlet.Source.Program
import Scriptlet.Source.Reading
import Scriptlet.Source.Token
import Scriptlet.Store
import Scriptlet.Store.Display
import Scriptlet.Text.DecimalDigit
import Scriptlet.Text.Numeral
import Scriptlet.Text.Position
import Scriptlet.Text.Printable
import Scriptlet.Text.Quoted
