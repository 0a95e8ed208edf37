import DeclFront.Generator.Script
import DeclFront.Syntax.Kind
import DeclFront.Proofs.Compilation.Derivations
import DeclFront.Proofs.Completion.Failures
import DeclFront.Proofs.Completion.WriteOnce
import DeclFront.Proofs.Generator.Exclusion
import DeclFront.Proofs.Generator.Isolation
import DeclFront.Proofs.Generator.Modes
import DeclFront.Proofs.Generator.Paths
import DeclFront.Proofs.Generator.Rerun
import DeclFront.Proofs.Generator.Sink
import DeclFront.Proofs.Generator.Watched
import DeclFront.Proofs.Pipeline.Incremental
import DeclFront.Proofs.Pipeline.Resolved
import DeclFront.Proofs.Symbol.CallerChoice
import DeclFront.Proofs.Symbol.Callers
import DeclFront.Proofs.Symbol.Faultless
import DeclFront.Proofs.Symbol.Forbidden
import DeclFront.Proofs.Symbol.Literals
import DeclFront.Proofs.Symbol.Plain
import DeclFront.Proofs.Symbol.Recorded
import DeclFront.Proofs.Symbol.Repeats
import DeclFront.Proofs.Symbol.Slots
import DeclFront.Proofs.Symbol.Written
import DeclFront.Proofs.Syntax.Order
import DeclFront.Proofs.Syntax.Rereading
import DeclFront.Proofs.Syntax.Shape
import DeclFront.Proofs.Syntax.Shown
import DeclFront.Proofs.Syntax.Soundness
