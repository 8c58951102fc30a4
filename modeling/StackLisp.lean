import StackLisp.Text.CharName
import StackLisp.Text.Quoted
import StackLisp.Text.Typing
import StackLisp.Number.Word
import StackLisp.Number.Binary64
import StackLisp.Number.Shortest
import StackLisp.Symbol.Table
import StackLisp.Error
import StackLisp.Token.Lexer
import StackLisp.Datum.Reader
import StackLisp.Outline
import StackLisp.Record
import StackLisp.Stack
import StackLisp.Code
import StackLisp.Store
import StackLisp.Store.Equality
import StackLisp.Store.Print
import StackLisp.Store.Binding
import StackLisp.Machine.Host
import StackLisp.Machine.Arguments
import StackLisp.Form.Compile
import StackLisp.Form.Infix
import StackLisp.Form.Special
import StackLisp.Form.Reading
import StackLisp.Native.Number
import StackLisp.Native.Sequence
import StackLisp.Native.Field
import StackLisp.Native.Standard
import StackLisp.Code.Listing
import StackLisp.Machine.Step
import StackLisp.Machine.Run
import StackLisp.Interpreter
import StackLisp.Console
import StackLisp.Main
import StackLisp.Proofs.Number.Numeral
import StackLisp.Proofs.Number.Rounding
import StackLisp.Proofs.Number.ReadBack
import StackLisp.Proofs.Symbol.Table
import StackLisp.Proofs.Token.Word
import StackLisp.Proofs.Token.Found
import StackLisp.Proofs.Token.Chunks
import StackLisp.Proofs.Reader.Through
import StackLisp.Proofs.Reader.Schedule
import StackLisp.Proofs.Datum.Legible
import StackLisp.Proofs.Datum.Leaf
import StackLisp.Proofs.Datum.RoundTrip
import StackLisp.Proofs.Reader.Whole
import StackLisp.Proofs.Reader.Restart
import StackLisp.Proofs.Datum.Grammar
import StackLisp.Proofs.Datum.Sketch
import StackLisp.Proofs.Datum.Literal
import StackLisp.Proofs.Datum.Grammatical
import StackLisp.Proofs.Code.Height
import StackLisp.Proofs.Code.WellFormed
import StackLisp.Proofs.Form.Layout
import StackLisp.Proofs.Form.Prototype
import StackLisp.Proofs.Symbol.Naming
import StackLisp.Proofs.Store.Learning
import StackLisp.Proofs.Store.Kinds
import StackLisp.Proofs.Store.Functions
import StackLisp.Proofs.Store.Fault
import StackLisp.Proofs.Machine.Tame
import StackLisp.Proofs.Native.Tame
import StackLisp.Proofs.Form.Reading
import StackLisp.Proofs.Machine.Ready
import StackLisp.Proofs.Machine.Stage
import StackLisp.Proofs.Machine.Keeping
import StackLisp.Proofs.Machine.Strict
import StackLisp.Proofs.Machine.Standing
import StackLisp.Proofs.Machine.Balance
import StackLisp.Proofs.Machine.Outcome
import StackLisp.Proofs.Machine.Spared
import StackLisp.Proofs.Machine.Adding
import StackLisp.Proofs.Machine.Failure
import StackLisp.Proofs.Form.Generated
import StackLisp.Proofs.Machine.Safety
import StackLisp.Proofs.Machine.Unasked
import StackLisp.Proofs.Machine.Room
import StackLisp.Proofs.Store.Captured
import StackLisp.Proofs.Store.Comparison
import StackLisp.Proofs.Store.Bisimulation
import StackLisp.Proofs.Record.OrderedMap
import StackLisp.Proofs.Record.Fields
import StackLisp.Proofs.Machine.Watched
import StackLisp.Proofs.Machine.Aligned
import StackLisp.Proofs.Machine.Transparent
import StackLisp.Proofs.Machine.Bracketed
import StackLisp.Proofs.Machine.Telling
import StackLisp.Proofs.Machine.Told
import StackLisp.Proofs.Machine.Tracing
import StackLisp.Proofs.Machine.Applying
import StackLisp.Proofs.Machine.Observed
import StackLisp.Proofs.Meaning.Expression
import StackLisp.Proofs.Meaning.Evaluation
import StackLisp.Proofs.Meaning.Outcomes
import StackLisp.Proofs.Meaning.Moment
import StackLisp.Proofs.Meaning.Instruction
import StackLisp.Proofs.Meaning.Calling
import StackLisp.Proofs.Meaning.Piece
import StackLisp.Proofs.Meaning.Delivery
import StackLisp.Proofs.Meaning.Task
import StackLisp.Proofs.Meaning.Straight
import StackLisp.Proofs.Meaning.Loops
import StackLisp.Proofs.Meaning.Calls
import StackLisp.Proofs.Meaning.Correctness
import StackLisp.Proofs.Meaning.Source
import StackLisp.Proofs.Meaning.Reading
import StackLisp.Proofs.Meaning.Compiled
import StackLisp.Proofs.Store.Development
import StackLisp.Proofs.Machine.Acting
import StackLisp.Proofs.Native.Acting
import StackLisp.Proofs.Form.Acting
import StackLisp.Proofs.Machine.Becoming
import StackLisp.Proofs.Machine.Guarded
import StackLisp.Proofs.Machine.Lexical
import StackLisp.Proofs.Machine.Twins
import StackLisp.Proofs.Machine.Recovery
import StackLisp.Proofs.Symbol.Identity
import StackLisp.Proofs.Machine.Foretold
import StackLisp.Proofs.Store.Bindings
import StackLisp.Proofs.Form.Builders
import StackLisp.Proofs.Store.Names
import StackLisp.Proofs.Form.Templates
import StackLisp.Proofs.Native.Blind
import StackLisp.Proofs.Meaning.Expressed
import StackLisp.Proofs.Meaning.Recorded
import StackLisp.Proofs.Meaning.Templates
import StackLisp.Proofs.Form.Infix
import StackLisp.Proofs.Machine.Reporting
import StackLisp.Proofs.Form.Pattern
import StackLisp.Proofs.Meaning.Filling
import StackLisp.Proofs.Meaning.Substitution
import StackLisp.Proofs.Meaning.Joined
import StackLisp.Proofs.Machine.Dealing
import StackLisp.Proofs.Machine.Arguments
import StackLisp.Proofs.Store.Writing
import StackLisp.Proofs.Machine.Writing
import StackLisp.Proofs.Store.Paths
import StackLisp.Proofs.Machine.Paths
import StackLisp.Proofs.Native.Ordering
import StackLisp.Proofs.Store.Lasting
import StackLisp.Proofs.Store.Printing
import StackLisp.Proofs.Token.Lines
import StackLisp.Proofs.Native.Folding
import StackLisp.Proofs.Datum.Number
import StackLisp.Proofs.Form.Ending
