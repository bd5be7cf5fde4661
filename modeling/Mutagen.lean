import Mutagen.Text.Lines
import Mutagen.Edit
import Mutagen.Tree.Walk
import Mutagen.Tree.Operand
import Mutagen.Tree.Rows
import Mutagen.Property
import Mutagen.Language.Basic
import Mutagen.Language.Grammar
import Mutagen.Entity.Basic
import Mutagen.Json
import Mutagen.Random.Shuffle
import Mutagen.Random.Seed
import Mutagen.Modifier.Basic
import Mutagen.Command.Run
import Mutagen.Main
import Mutagen.Proofs.Modifier.UntouchedLines
import Mutagen.Proofs.Modifier.Likelihood
import Mutagen.Proofs.Entity.Extraction
import Mutagen.Proofs.Entity.Handle
import Mutagen.Proofs.Dialect.Tags
import Mutagen.Proofs.Modifier.EmptyEntity
import Mutagen.Proofs.Modifier.Eligibility
import Mutagen.Proofs.Mutation.Shape
import Mutagen.Proofs.Table
import Mutagen.Proofs.Mutation.Independence
import Mutagen.Proofs.Mutation.Bounds
import Mutagen.Proofs.Config.Cache
import Mutagen.Proofs.Config.Layers
import Mutagen.Proofs.Config.Merge
import Mutagen.Proofs.Config.FailedLoad
import Mutagen.Proofs.Files
import Mutagen.Proofs.Config.Codec
import Mutagen.Proofs.Config.Saved
import Mutagen.Proofs.Config.Init
import Mutagen.Proofs.Dialect.Extension
import Mutagen.Proofs.Dialect.PlainElse
import Mutagen.Proofs.Config.Omission
import Mutagen.Proofs.Config.Validation
import Mutagen.Proofs.Config.Lossless
import Mutagen.Proofs.Edit.Conservation
import Mutagen.Proofs.Entity.Edited
import Mutagen.Proofs.Edit.Selection
import Mutagen.Proofs.Modifier.ExchangedBranches
import Mutagen.Proofs.Modifier.ShuffledSlots
import Mutagen.Proofs.Modifier.ExchangedOperands
import Mutagen.Proofs.Modifier.BrokenChains
import Mutagen.Proofs.Modifier.ReplacedOperators
import Mutagen.Proofs.Modifier.RemovedStatements
import Mutagen.Proofs.Modifier.FilledBlocks
import Mutagen.Proofs.Modifier.NeutralizedCalls
import Mutagen.Proofs.Modifier.ShiftedLiterals
import Mutagen.Proofs.Modifier.ChainedCalls
import Mutagen.Proofs.Modifier.RemovedBases
import Mutagen.Proofs.Modifier.LeftoverTokens
import Mutagen.Proofs.Modifier.SeparatedLiterals
import Mutagen.Proofs.Modifier.BareDeclarations
import Mutagen.Proofs.Entity.Signature
import Mutagen.Proofs.Entity.Rows
import Mutagen.Proofs.Entity.Parameters
import Mutagen.Proofs.Modifier.TaggedSubtree
import Mutagen.Proofs.Random.Seed
import Mutagen.Proofs.Text.Case
import Mutagen.Proofs.Config.Usability
import Mutagen.Proofs.Config.Routing
import Mutagen.Proofs.Config.Listing
import Mutagen.Proofs.Modifier.ExchangedPositions
import Mutagen.Proofs.Tree.CursorWalk
import Mutagen.Proofs.Text.IndentWidth
import Mutagen.Proofs.Text.WidenedSpans
