import ScriptSyntax.Diagnostic.Report
import ScriptSyntax.Parser.Program
import ScriptSyntax.Proofs.Brace
import ScriptSyntax.Proofs.Rendering
import ScriptSyntax.Proofs.Scanner.Tokenization
import ScriptSyntax.Proofs.Semicolon
import ScriptSyntax.Tree.Render
import ScriptSyntax.Proofs.Operations
import ScriptSyntax.Proofs.Precedence
import ScriptSyntax.Proofs.Grammar.Prediction
import ScriptSyntax.Proofs.Grammar.Predicted
import ScriptSyntax.Proofs.Parser.Awaited
import ScriptSyntax.Proofs.FirstFault
import ScriptSyntax.Proofs.Diagnostics
import ScriptSyntax.Proofs.RoundTrip
import ScriptSyntax.Proofs.Layout
import ScriptSyntax.Proofs.Effort
import ScriptSyntax.Proofs.Nesting
import ScriptSyntax.Proofs.TokenOrder
import ScriptSyntax.Proofs.NestingLimit
import ScriptSyntax.Proofs.Scanner.Composition
import ScriptSyntax.Proofs.Transcript
import ScriptSyntax.Proofs.LevelBalance
import ScriptSyntax.Proofs.LastToken
import ScriptSyntax.Proofs.Consistency
import ScriptSyntax.Proofs.Cascade
import ScriptSyntax.Proofs.Lines
import ScriptSyntax.Proofs.Scanner.Session
import ScriptSyntax.Proofs.Unambiguous
import ScriptSyntax.Proofs.Report
import ScriptSyntax.Proofs.Recovery
