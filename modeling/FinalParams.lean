import FinalParams.Text.Blank
import FinalParams.Text.Lowercase
import FinalParams.Text.Quoted
import FinalParams.Text.Digit
import FinalParams.Node.SourceText
import FinalParams.Node.Walk
import FinalParams.Scan
import FinalParams.Shorthand
import FinalParams.Lowering.Expression
import FinalParams.Lowering.Unit
import FinalParams.Diagnostic.Suppression
import FinalParams.Host.Addon
import FinalParams.Config.Links
import FinalParams.Host.Scripted
import FinalParams.CommandLine.Program
import FinalParams.Package.Offer
import FinalParams.Main
import FinalParams.Proofs.Scan.Exact
import FinalParams.Proofs.Lowering.Exact
import FinalParams.Proofs.Lowering.Outline
import FinalParams.Proofs.Host.Dumps
import FinalParams.Proofs.Host.ExitStatus
import FinalParams.Proofs.Host.Crash
import FinalParams.Proofs.Host.Isolation
import FinalParams.Proofs.CommandLine.Ending
import FinalParams.Proofs.Lowering.Origin
import FinalParams.Proofs.Lowering.Justified
import FinalParams.Proofs.Lowering.Kept
import FinalParams.Proofs.Host.Filing
import FinalParams.Proofs.Host.Regrouped
import FinalParams.Proofs.Scan.PlainOnly
import FinalParams.Proofs.Lowering.Searchable
import FinalParams.Proofs.Datum.Json
import FinalParams.Proofs.Diagnostic.JsonLines
import FinalParams.Proofs.Host.InStep
import FinalParams.Proofs.Lowering.Finished
import FinalParams.Proofs.Host.Pipeline
import FinalParams.Proofs.Lowering.Recursion
import FinalParams.Proofs.Lowering.Once
import FinalParams.Proofs.Scan.Files
import FinalParams.Proofs.Scan.Stray
import FinalParams.Proofs.Diagnostic.NamedFiles
import FinalParams.Proofs.Lowering.Steps
import FinalParams.Proofs.Diagnostic.Edits
import FinalParams.Proofs.Host.Bystanders
import FinalParams.Proofs.Config.Ownership
import FinalParams.Proofs.Config.Elision
import FinalParams.Proofs.Config.Arguments
import FinalParams.Proofs.Lowering.Quoted
import FinalParams.Proofs.Lowering.Straightened
