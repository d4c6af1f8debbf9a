import TextGrammar.Main
import TextGrammar.Parser.Workspace
import TextGrammar.Value.Transform
import TextGrammar.Proofs.Endings
import TextGrammar.Proofs.Positions
import TextGrammar.Proofs.Replay
import TextGrammar.Proofs.Depth
import TextGrammar.Proofs.OpenCalls
import TextGrammar.Proofs.Reentry
import TextGrammar.Proofs.Termination
import TextGrammar.Proofs.Accumulator
import TextGrammar.Proofs.Reference
import TextGrammar.Proofs.Overflow
import TextGrammar.Proofs.Agreement
import TextGrammar.Proofs.Provenance
import TextGrammar.Proofs.UsualSpace
import TextGrammar.Proofs.Contents
import TextGrammar.Proofs.Observation
import TextGrammar.Proofs.Shift
import TextGrammar.Proofs.Numerals
import TextGrammar.Proofs.Escaping
import TextGrammar.Proofs.Spelling
import TextGrammar.Proofs.Lexemes
import TextGrammar.Proofs.Syntax
import TextGrammar.Proofs.Reading
import TextGrammar.Proofs.Progress
import TextGrammar.Proofs.Log
import TextGrammar.Proofs.Nodes
import TextGrammar.Proofs.Derivation
import TextGrammar.Proofs.Acceptance
import TextGrammar.Proofs.Literals
import TextGrammar.Proofs.Coercion
import TextGrammar.Proofs.Comparison
import TextGrammar.Proofs.Equivalence
import TextGrammar.Proofs.Reachability
import TextGrammar.Proofs.Contexts
import TextGrammar.Proofs.Extraction
import TextGrammar.Proofs.LeadingSpace
import TextGrammar.Proofs.Commands
import TextGrammar.Proofs.PlainLoop
import TextGrammar.Proofs.PatternUnits
import TextGrammar.Proofs.Tracing
import TextGrammar.Proofs.Visits
import TextGrammar.Proofs.Flaws
import TextGrammar.Proofs.Interruption
import TextGrammar.Proofs.Raising
import TextGrammar.Proofs.Composition
import TextGrammar.Proofs.Copies
import TextGrammar.Proofs.NestedChoices
import TextGrammar.Proofs.Equality
