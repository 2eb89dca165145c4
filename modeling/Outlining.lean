import Outlining.Bytecode.Validity
import Outlining.Bytecode.Usage
import Outlining.Bytecode.Listing
import Outlining.Text.Numeral
import Outlining.Bytecode.Draft
import Outlining.Template.Order
import Outlining.Template.Listing
import Outlining.Template.Signature
import Outlining.Pipeline
import Outlining.Document.Bytecode
import Outlining.Document.Options
import Outlining.Toml.Parse
import Outlining.Json.Parse
import Outlining.Json.Print
import Outlining.Main
import Outlining.Proofs.Window.Binding
import Outlining.Proofs.Window.Wiring
import Outlining.Proofs.Window.Candidate
import Outlining.Proofs.Bytecode.Descriptor
import Outlining.Proofs.Window.Parameter
import Outlining.Proofs.Ledger
import Outlining.Proofs.Template.Body
import Outlining.Proofs.Bytecode.Typed
import Outlining.Proofs.Window.Outline
import Outlining.Proofs.Pipeline.Pass
import Outlining.Proofs.Pipeline.Rewrite
import Outlining.Proofs.Holder
import Outlining.Proofs.Pipeline.Run
import Outlining.Proofs.Window.Bounds
import Outlining.Proofs.Pipeline.Faultless
import Outlining.Proofs.Rewriting.Splice
import Outlining.Proofs.Window.Replay
import Outlining.Proofs.Pipeline.Replacement
import Outlining.Proofs.Pipeline.Inlining
import Outlining.Proofs.Bytecode.Arrangement
import Outlining.Proofs.Window.Liveness
import Outlining.Proofs.Rewriting.Survivor
import Outlining.Proofs.Pipeline.Coverage
import Outlining.Proofs.Pipeline.Reads
import Outlining.Proofs.Pipeline.Stranding
import Outlining.Proofs.Census
import Outlining.Proofs.Pipeline.Survey
import Outlining.Proofs.Pipeline.Selection
import Outlining.Proofs.Pipeline.Determination
import Outlining.Proofs.Pipeline.Striking
import Outlining.Proofs.Pipeline.Naming
import Outlining.Proofs.Pipeline.Refusal
import Outlining.Proofs.Pipeline.Accounting
import Outlining.Proofs.Window.Twin
import Outlining.Proofs.Window.Awaited
import Outlining.Proofs.Window.Scan
import Outlining.Proofs.Window.Separation
import Outlining.Proofs.Window.Lockstep
import Outlining.Proofs.Window.Coincidence
import Outlining.Proofs.Rewriting.Part
import Outlining.Proofs.Bytecode.Root
import Outlining.Proofs.Bytecode.Assignment
import Outlining.Proofs.Bytecode.Completion
import Outlining.Proofs.Pipeline.Rework
import Outlining.Proofs.Pipeline.Mirror
import Outlining.Proofs.Pipeline.Rescan
import Outlining.Proofs.Pipeline.Remainder
import Outlining.Proofs.Pipeline.Idle
import Outlining.Proofs.Pipeline.Repetition
import Outlining.Proofs.Rewriting.Validity
import Outlining.Proofs.Pipeline.Outcome
import Outlining.Proofs.Pipeline.Call
import Outlining.Proofs.Pipeline.Validity
import Outlining.Proofs.Pipeline.History
import Outlining.Proofs.Pipeline.Work
import Outlining.Proofs.Pipeline.Tally
import Outlining.Proofs.Bytecode.Shuffle
import Outlining.Proofs.Pipeline.Rearrangement
import Outlining.Proofs.Pipeline.Construction
import Outlining.Proofs.Pipeline.Standstill
import Outlining.Proofs.Interleaving
import Outlining.Proofs.Bytecode.Renaming
import Outlining.Proofs.Window.Renaming
import Outlining.Proofs.Window.Shape
import Outlining.Proofs.Window.Progress
import Outlining.Proofs.Window.Passing
import Outlining.Proofs.Window.Reuse
import Outlining.Proofs.Window.Rejection
import Outlining.Proofs.Pipeline.Maximality
import Outlining.Proofs.Template.Encoding
import Outlining.Proofs.Bytecode.Swap
import Outlining.Proofs.Window.Swap
import Outlining.Proofs.Rewriting.Entry
import Outlining.Proofs.Rewriting.Chain
import Outlining.Proofs.Pipeline.Flow
import Outlining.Proofs.Pipeline.Frame
import Outlining.Proofs.Ledger.View
import Outlining.Proofs.Ledger.History
import Outlining.Proofs.Template.Comparison
import Outlining.Proofs.Census.History
import Outlining.Proofs.Rewriting.Size
import Outlining.Proofs.Pipeline.Balance
import Outlining.Proofs.Text.Numeral
import Outlining.Proofs.CommandLine.Grammar
import Outlining.Proofs.Bytecode.Draft
import Outlining.Proofs.CommandLine.Listing
import Outlining.Proofs.Bytecode.Declaration
import Outlining.Proofs.Template.Acceptance
import Outlining.Proofs.Bytecode.Refinement
import Outlining.Proofs.Window.Outstanding
