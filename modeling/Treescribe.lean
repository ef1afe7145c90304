import Treescribe.Value.Rendering
import Treescribe.Value.Typing
import Treescribe.OutputPath
import Treescribe.Text.Alphanumeric
import Treescribe.Message.Decode
import Treescribe.Message.Read
import Treescribe.Tree.Visit
import Treescribe.Transcript
import Treescribe.Main
import Treescribe.Proofs.Table.Acceptance
import Treescribe.Proofs.Table.Mirror
import Treescribe.Proofs.Table.Flattening
import Treescribe.Proofs.Table.Reordering
import Treescribe.Proofs.Session.Scopes
import Treescribe.Proofs.Session.Annotations
import Treescribe.Proofs.Session.Layouts
import Treescribe.Proofs.Session.Blocks
import Treescribe.Proofs.Session.Declarations
import Treescribe.Proofs.Session.Limits
import Treescribe.Proofs.Session.Modifiers
import Treescribe.Proofs.Session.Classes
import Treescribe.Proofs.Session.Bodies
import Treescribe.Proofs.Value.SingleLines
import Treescribe.Proofs.Session.SingleLines
import Treescribe.Proofs.Json.Grammar
import Treescribe.Proofs.Json.Lexing
import Treescribe.Proofs.Json.Parsing
import Treescribe.Proofs.Json.Strings
import Treescribe.Proofs.Message.Forms
import Treescribe.Proofs.Message.Texts
import Treescribe.Proofs.CommandLine.Files
import Treescribe.Proofs.Session.Preambles
import Treescribe.Proofs.Text.Nesting
import Treescribe.Proofs.Text.Trimming
import Treescribe.Proofs.Value.Constructions
import Treescribe.Proofs.Value.Quotations
import Treescribe.Proofs.Text.Literals
import Treescribe.Proofs.Text.Links
import Treescribe.Proofs.Value.Strings
import Treescribe.Proofs.Value.LineBreaks
import Treescribe.Proofs.Value.TargetForms
import Treescribe.Proofs.Value.ConstructedTypes
import Treescribe.Proofs.Text.Placeholders
import Treescribe.Proofs.Session.Writes
import Treescribe.Proofs.Session.Failures
import Treescribe.Proofs.Session.Headers
import Treescribe.Proofs.Session.Assignments
import Treescribe.Proofs.CommandLine.Paths
import Treescribe.Proofs.Session.Conditions
import Treescribe.Proofs.Value.Chains
import Treescribe.Proofs.Value.Floats
import Treescribe.Proofs.Text.Offsets
import Treescribe.Proofs.Value.Links
import Treescribe.Proofs.Text.Slices
import Treescribe.Proofs.Value.Slices
import Treescribe.Proofs.Table.Recursion
import Treescribe.Proofs.Json.Readings
import Treescribe.Proofs.Json.Characters
import Treescribe.Proofs.Message.Readings
import Treescribe.Proofs.Message.Faults
import Treescribe.Proofs.Session.OpenLines
