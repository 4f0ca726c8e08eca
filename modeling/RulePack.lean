import RulePack.Main
import RulePack.Proofs.Comment.Pieces
import RulePack.Proofs.Json.Tokens
import RulePack.Proofs.Json.Shape
import RulePack.Proofs.Json.RoundTrip
import RulePack.Proofs.Comment.Printed
import RulePack.Proofs.Path.Names
import RulePack.Proofs.Disk.Keeping
import RulePack.Proofs.Config.RoundTrip
import RulePack.Proofs.Disk.Children
import RulePack.Proofs.Disk.Growing
import RulePack.Proofs.Installation.Copying
import RulePack.Proofs.Installation.Registering
import RulePack.Proofs.Installation.Repeated
import RulePack.Proofs.Installation.Runs
import RulePack.Proofs.Disk.Reaching
import RulePack.Proofs.Disk.Resolving
import RulePack.Proofs.Installation.Effects
import RulePack.Proofs.Installation.Failing
import RulePack.Proofs.Installation.Outcomes
import RulePack.Proofs.Installation.Agreeing
import RulePack.Proofs.Path.Components
import RulePack.Proofs.Plugin.Pointing
import RulePack.Proofs.Comment.Literals
import RulePack.Proofs.Json.Lexing
import RulePack.Proofs.Json.Words
import RulePack.Proofs.Json.Numerals
import RulePack.Proofs.Json.Grammar
import RulePack.Proofs.Json.Outline
import RulePack.Proofs.Config.Rereading
import RulePack.Proofs.Json.Apart
import RulePack.Proofs.Comment.Spacing
import RulePack.Proofs.Usage.Spelling
import RulePack.Proofs.Usage.CommandLines
import RulePack.Proofs.Plugin.Merging
import RulePack.Proofs.Config.Merging
import RulePack.Proofs.Program.Exits
import RulePack.Proofs.Json.Literals
import RulePack.Proofs.Json.Numbers
import RulePack.Proofs.Json.Documents
import RulePack.Proofs.Config.Validity
import RulePack.Proofs.Comment.Lines
import RulePack.Proofs.Comment.Stripped
import RulePack.Proofs.Comment.Absent
import RulePack.Proofs.Plugin.Directories
import RulePack.Proofs.Installation.Directories
import RulePack.Proofs.Plugin.Splitting
import RulePack.Proofs.Text.Shown
import RulePack.Proofs.Installation.Spellings
import RulePack.Proofs.Path.Ancestors
import RulePack.Proofs.Package.Searching
import RulePack.Proofs.Path.Absolute
import RulePack.Proofs.Disk.Alike
import RulePack.Proofs.Package.Given
import RulePack.Proofs.Plugin.Pasting
import RulePack.Proofs.Package.Reading
