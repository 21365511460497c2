import Stencil.Markup.Cursor
import Stencil.Template.Library
import Stencil.Tree.Outline
import Stencil.Tree.Walk
import Stencil.Proofs.Render.Run
import Stencil.Proofs.Render.Evaluation
import Stencil.Proofs.Render.Tree
import Stencil.Proofs.Render.Kept
import Stencil.Proofs.Render.ScopeDiscipline
import Stencil.Proofs.Render.Containment
import Stencil.Proofs.Render.Growth
import Stencil.Proofs.Render.Lockstep
import Stencil.Proofs.Render.CeilingBounds
import Stencil.Proofs.Markup.Segmentation
import Stencil.Proofs.Render.Strictness
import Stencil.Proofs.Tree.Outcome
import Stencil.Proofs.Tree.Steps
import Stencil.Proofs.Tree.Grammar
import Stencil.Proofs.Text.Search
import Stencil.Proofs.Text.Trim
import Stencil.Proofs.Tree.Reading
import Stencil.Proofs.Tree.Acceptance
import Stencil.Proofs.Tree.Lines
import Stencil.Proofs.Render.Rethrow
import Stencil.Proofs.Text.Spans
import Stencil.Proofs.Text.Classes
import Stencil.Proofs.Markup.Lexemes
import Stencil.Proofs.Markup.Spelling
import Stencil.Proofs.Markup.Coverage
import Stencil.Proofs.Markup.Expressions
import Stencil.Proofs.Expr.Reading
import Stencil.Proofs.Expr.Paths
import Stencil.Proofs.Expr.Ranges
import Stencil.Proofs.Markup.Fragments
import Stencil.Proofs.Markup.Layout
import Stencil.Proofs.Markup.Stretches
import Stencil.Proofs.Tree.OutputAgreement
import Stencil.Proofs.Markup.Chunks
import Stencil.Proofs.Tree.ConditionAgreement
import Stencil.Proofs.Tree.CycleLists
import Stencil.Proofs.Markup.Headers
import Stencil.Proofs.Tree.LoopAgreement
import Stencil.Proofs.Tree.Agreement
import Stencil.Proofs.Expr.Canonical
import Stencil.Proofs.Tree.CanonicalPipeline
import Stencil.Proofs.Tree.CanonicalCondition
import Stencil.Proofs.Tree.RoundTrip
import Stencil.Proofs.Tree.Spacing
import Stencil.Proofs.Render.Entered
import Stencil.Proofs.Render.Iterated
import Stencil.Proofs.Render.Interrupts
import Stencil.Proofs.Render.Blankness
import Stencil.Proofs.Markup.Boundaries
import Stencil.Proofs.Tree.Relocation
import Stencil.Proofs.Tree.Verbatim
import Stencil.Proofs.Render.Continuation
import Stencil.Proofs.Render.Idempotence
import Stencil.Proofs.Render.Binding
import Stencil.Proofs.Tree.Literals
import Stencil.Proofs.Tree.Walk
import Stencil.Proofs.Tree.Visits
import Stencil.Proofs.Tree.References
import Stencil.Proofs.Render.Alike
import Stencil.Proofs.Render.References
import Stencil.Proofs.Markup.Within
import Stencil.Proofs.Tree.Refusals
import Stencil.Proofs.Value.Failures
import Stencil.Proofs.Value.Refusals
import Stencil.Proofs.Value.Raising
import Stencil.Proofs.Expr.Failures
import Stencil.Proofs.Tree.Failing
import Stencil.Proofs.Tree.Faults
import Stencil.Proofs.Tree.Landmarks
import Stencil.Proofs.Tree.ExactLines
import Stencil.Proofs.Tree.Selection
import Stencil.Proofs.Tree.Fallback
import Stencil.Proofs.Text.Runs
import Stencil.Proofs.Value.Magnitude
import Stencil.Proofs.Expr.Numerals
import Stencil.Proofs.Expr.Safety
import Stencil.Proofs.Markup.NormalForms
import Stencil.Proofs.Tree.Totality
import Stencil.Proofs.Tree.Nesting
import Stencil.Proofs.Render.Room
import Stencil.Proofs.Render.Nesting
import Stencil.Proofs.Render.OwnSteps
import Stencil.Proofs.Text.Lines
import Stencil.Proofs.Diagnostic.Snippets
import Stencil.Proofs.Diagnostic.OffendingLine
import Stencil.Proofs.Diagnostic.Colours
import Stencil.Proofs.Render.HiddenNames
import Stencil.Proofs.Render.Chains
import Stencil.Proofs.Number.Order
import Stencil.Proofs.Value.Equality
import Stencil.Proofs.Value.Comparison
import Stencil.Proofs.Value.Membership
import Stencil.Proofs.Render.Windows
import Stencil.Proofs.Render.Alternatives
import Stencil.Proofs.Number.DecimalText
import Stencil.Proofs.Expr.EagerRanges
import Stencil.Proofs.Render.Cycles
import Stencil.Proofs.Render.LoopsKept
import Stencil.Proofs.Render.Rounds
import Stencil.Proofs.Render.Arguments
import Stencil.Proofs.Render.FailedNodes
import Stencil.Proofs.Render.Captures
import Stencil.Proofs.Render.TableLayout
import Stencil.Proofs.Render.Tables
import Stencil.Proofs.Render.PlainRenders
import Stencil.Proofs.Render.Events
import Stencil.Proofs.Render.Assigned
import Stencil.Proofs.Filter.Invocation
import Stencil.Proofs.Filter.Splitting
import Stencil.Proofs.Value.Sorting
import Stencil.Proofs.Filter.Sorting
import Stencil.Proofs.Filter.Properties
import Stencil.Proofs.Value.Overflow
import Stencil.Proofs.Filter.Overflow
import Stencil.Proofs.Render.Raised
import Stencil.Proofs.Render.Recorded
import Stencil.Proofs.Markup.Rereading
import Stencil.Proofs.Markup.Closers
