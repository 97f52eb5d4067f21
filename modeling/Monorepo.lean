import Monorepo.Main
import Monorepo.Proofs.Assembly
import Monorepo.Proofs.Blocks
import Monorepo.Proofs.Concatenation
import Monorepo.Proofs.Dangling
import Monorepo.Proofs.Depths
import Monorepo.Proofs.FileTrees
import Monorepo.Proofs.Frames
import Monorepo.Proofs.Locals
import Monorepo.Proofs.Nesting
import Monorepo.Proofs.Protocol
import Monorepo.Proofs.Reading
import Monorepo.Proofs.Recursion
import Monorepo.Proofs.Sessions
import Monorepo.Proofs.Storage
import Monorepo.Proofs.Unmodelled
import Monorepo.Proofs.Waves
import Monorepo.Proofs.Opening
import Monorepo.Proofs.Discovery
import Monorepo.Proofs.LiteralTokens
import Monorepo.Proofs.ReadingBack
import Monorepo.Proofs.Insertions
import Monorepo.Proofs.Integers
import Monorepo.Proofs.Sizes
import Monorepo.Proofs.Blame
import Monorepo.Proofs.Comprehensions
import Monorepo.Proofs.Ordering
import Monorepo.Proofs.Equivalence
import Monorepo.Proofs.Repetition
import Monorepo.Proofs.SortingByOrder
import Monorepo.Proofs.SortedValues
import Monorepo.Proofs.SizeChecks
import Monorepo.Proofs.Ranges
import Monorepo.Proofs.Templates
import Monorepo.Proofs.Splitting
import Monorepo.Proofs.NormalForms
import Monorepo.Proofs.Buildpaths
import Monorepo.Proofs.Parameters
import Monorepo.Proofs.TargetLists
import Monorepo.Proofs.StoredConfigs
import Monorepo.Proofs.Numbering
import Monorepo.Proofs.ExitCodes
import Monorepo.Proofs.BlankLines
import Monorepo.Proofs.LineEndings
import Monorepo.Proofs.Numerals
import Monorepo.Proofs.Descent
import Monorepo.Proofs.Mirrors
import Monorepo.Proofs.Strata
import Monorepo.Proofs.Progress
