import SeedLogic.Analysis
import SeedLogic.Analysis.Codec
import SeedLogic.Check
import SeedLogic.Check.Codec
import SeedLogic.CommandLine
import SeedLogic.CommandLine.Arguments
import SeedLogic.Dict
import SeedLogic.Error
import SeedLogic.Failure
import SeedLogic.Formula
import SeedLogic.Formula.Expansion
import SeedLogic.Formula.Parser
import SeedLogic.Game
import SeedLogic.Hint
import SeedLogic.Hint.Codec
import SeedLogic.Inventory
import SeedLogic.Json
import SeedLogic.Json.Decoder
import SeedLogic.Json.Numeral
import SeedLogic.Json.Printer
import SeedLogic.Json.Quotation
import SeedLogic.Json.Reader
import SeedLogic.Location
import SeedLogic.Location.Codec
import SeedLogic.LocationSet
import SeedLogic.Log
import SeedLogic.Macro
import SeedLogic.Main
import SeedLogic.NameTable
import SeedLogic.Pathfinder
import SeedLogic.Pathfinder.State
import SeedLogic.Pathfinder.Sweep
import SeedLogic.Placement
import SeedLogic.Random
import SeedLogic.Random.KeyStream
import SeedLogic.Recorded
import SeedLogic.Requirement
import SeedLogic.Requirement.Codec
import SeedLogic.Requirement.Description
import SeedLogic.Requirement.Evaluation
import SeedLogic.Settings
import SeedLogic.Settings.Codec
import SeedLogic.SpoilerLog
import SeedLogic.SpoilerLog.Codec
import SeedLogic.StartingItems
import SeedLogic.Symbols
import SeedLogic.Table
import SeedLogic.Table.Codec
import SeedLogic.Text.Blank
import SeedLogic.Text.Decimal
import SeedLogic.Text.Occurrence
import SeedLogic.Text.Span
import SeedLogic.Token
import SeedLogic.World
import SeedLogic.World.Build
import SeedLogic.World.Draft
import SeedLogic.Proofs.Inventory.Growth
import SeedLogic.Proofs.Pathfinder.Moves
import SeedLogic.Proofs.Pathfinder.Closing
import SeedLogic.Proofs.Pathfinder.Search
import SeedLogic.Proofs.Pathfinder.Round
import SeedLogic.Proofs.Pathfinder.Rounds
import SeedLogic.Proofs.Outcome
import SeedLogic.Proofs.World.Linked
import SeedLogic.Proofs.Pathfinder.Beginning
import SeedLogic.Proofs.Pathfinder.Ledger
import SeedLogic.Proofs.Pathfinder.Balance
import SeedLogic.Proofs.Pathfinder.Spheres
import SeedLogic.Proofs.Pathfinder.Rules
import SeedLogic.Proofs.Pathfinder.LeastFixpoint
import SeedLogic.Proofs.Pathfinder.Lockstep
import SeedLogic.Proofs.Analysis.Required
import SeedLogic.Proofs.Formula.Truth
import SeedLogic.Proofs.Formula.Arguments
import SeedLogic.Proofs.Formula.Soundness
import SeedLogic.Proofs.Formula.Completeness
import SeedLogic.Proofs.Formula.Spelling
import SeedLogic.Proofs.Formula.Unfolding
import SeedLogic.Proofs.Formula.Appearance
import SeedLogic.Proofs.Formula.Position
import SeedLogic.Proofs.Formula.WritingOut
import SeedLogic.Proofs.Pathfinder.Granting
import SeedLogic.Proofs.Pathfinder.Earliest
import SeedLogic.Proofs.Pathfinder.Goals
import SeedLogic.Proofs.Pathfinder.Monotone
import SeedLogic.Proofs.Text.Decimal
import SeedLogic.Proofs.Analysis.Locks
import SeedLogic.Proofs.Analysis.LockCircles
import SeedLogic.Proofs.Requirement.Normality
import SeedLogic.Proofs.Requirement.Atoms
import SeedLogic.Proofs.Formula.Legibility
import SeedLogic.Proofs.Formula.Describing
import SeedLogic.Proofs.World.Coherence
import SeedLogic.Proofs.Pathfinder.Checked
import SeedLogic.Proofs.Pathfinder.InRange
import SeedLogic.Proofs.Pathfinder.Safety
import SeedLogic.Proofs.Pathfinder.Refusals
import SeedLogic.Proofs.Random.Shuffle
import SeedLogic.Proofs.Pathfinder.Standstill
import SeedLogic.Proofs.Pathfinder.Excerpt
import SeedLogic.Proofs.Hint.Bookkeeping
import SeedLogic.Proofs.Pathfinder.Independence
import SeedLogic.Proofs.World.Declarations
import SeedLogic.Proofs.World.Consistency
import SeedLogic.Proofs.Formula.Meaning
import SeedLogic.Proofs.Requirement.Shape
import SeedLogic.Proofs.World.Depiction
import SeedLogic.Proofs.Pathfinder.NamedSearch
import SeedLogic.Proofs.Pathfinder.Stages
import SeedLogic.Proofs.Pathfinder.TableOrder
import SeedLogic.Proofs.Pathfinder.Looping
import SeedLogic.Proofs.Pathfinder.Ending
import SeedLogic.Proofs.World.Acceptance
import SeedLogic.Proofs.Hint.Stones
import SeedLogic.Proofs.SpoilerLog.Checked
import SeedLogic.Proofs.SpoilerLog.Faithful
import SeedLogic.Proofs.Text.Boundary
import SeedLogic.Proofs.Formula.Slicing
import SeedLogic.Proofs.Formula.Blame
import SeedLogic.Proofs.Formula.Copying
import SeedLogic.Proofs.Formula.Rereading
import SeedLogic.Proofs.Formula.Pointing
import SeedLogic.Proofs.Formula.NormalForm
import SeedLogic.Proofs.Hint.Exhaustion
import SeedLogic.Proofs.World.Dungeons
import SeedLogic.Proofs.Pathfinder.StoneFlags
import SeedLogic.Proofs.Pathfinder.StonesFound
import SeedLogic.Proofs.Token.Exactness
import SeedLogic.Proofs.Macro.Header
import SeedLogic.Proofs.Placement.ByName
import SeedLogic.Proofs.Formula.DepthBound
import SeedLogic.Proofs.Symbols.Register
import SeedLogic.Proofs.World.Interning
import SeedLogic.Proofs.Formula.Session
import SeedLogic.Proofs.Formula.Parentheses
import SeedLogic.Proofs.Json.Layout
import SeedLogic.Proofs.Json.Reading
import SeedLogic.Proofs.Json.Nesting
import SeedLogic.Proofs.Json.Decoding
import SeedLogic.Proofs.Requirement.Document
import SeedLogic.Proofs.SpoilerLog.Document
import SeedLogic.Proofs.Settings.Document
