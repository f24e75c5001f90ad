import CommandScript.Main
import CommandScript.Proofs.Grammar.Deepest
import CommandScript.Proofs.Grammar.Reordering
import CommandScript.Proofs.Grammar.Resource
import CommandScript.Proofs.Registry.Journal
import CommandScript.Proofs.Registry.Sessions
import CommandScript.Proofs.Script.Directory
import CommandScript.Proofs.Script.Verdict
import CommandScript.Proofs.Template.Written
import CommandScript.Proofs.Grammar.PrefixTree
import CommandScript.Proofs.Script.Clean
import CommandScript.Proofs.Grammar.Preference
import CommandScript.Proofs.Numeric.Nearest
import CommandScript.Proofs.Numeric.Positional
import CommandScript.Proofs.Grammar.NumberText
import CommandScript.Proofs.Grammar.UsageText
import CommandScript.Proofs.Data.Atoms
import CommandScript.Proofs.Data.Unambiguous
import CommandScript.Proofs.Grammar.TypedWords
import CommandScript.Proofs.Script.Stretches
import CommandScript.Proofs.Template.Agreement
import CommandScript.Proofs.Data.Mirrored
import CommandScript.Proofs.Script.Placement
import CommandScript.Proofs.Identifiers
import CommandScript.Proofs.Data.Insertion
import CommandScript.Proofs.Script.LineEndings
import CommandScript.Proofs.Text.Boundaries
import CommandScript.Proofs.Grammar.Offsets
import CommandScript.Proofs.Grammar.Extent
import CommandScript.Proofs.Grammar.Backtracking
