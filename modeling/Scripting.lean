import Scripting.CommandLine
import Scripting.Console
import Scripting.Grammar.Choice
import Scripting.Lexer
import Scripting.Main
import Scripting.Parser.Statement
import Scripting.Proofs.Eval.Placement
import Scripting.Proofs.Eval.Restored
import Scripting.Proofs.Eval.Source
import Scripting.Proofs.Grammar.NumeralPoint
import Scripting.Proofs.Parser.Prefix
import Scripting.Proofs.Parser.Separation
import Scripting.Proofs.Printer.RoundTrip
import Scripting.Proofs.Tree.RoundTrip
import Scripting.Session
import Scripting.Store
import Scripting.Tree.Text
import Scripting.Value.Equality
import Scripting.Value.Text
import Scripting.Proofs.Eval.Composed
import Scripting.Proofs.Eval.Limits
import Scripting.Proofs.Eval.Termination
import Scripting.Proofs.Eval.Scope
import Scripting.Proofs.Parser.Programs
import Scripting.Proofs.Value.RoundTrip
import Scripting.Proofs.Eval.Flow
import Scripting.Proofs.Eval.Evolution
import Scripting.Proofs.Eval.Formed
import Scripting.Proofs.Eval.Locality
import Scripting.Proofs.Eval.Tracing
import Scripting.Proofs.Parser.Errors
import Scripting.Proofs.Console.Session
import Scripting.Proofs.Eval.Records
import Scripting.Proofs.Parser.Spans
import Scripting.Proofs.Parser.Places
import Scripting.Proofs.Parser.Material
import Scripting.Proofs.Parser.Written
import Scripting.Proofs.Parser.Lengths
import Scripting.Proofs.Store.Chains
import Scripting.Proofs.Value.Alike
import Scripting.Proofs.Parser.Bounds
import Scripting.Proofs.Tree.Canonical
import Scripting.Proofs.Lexer.Literals
import Scripting.Proofs.Number.Conversion
