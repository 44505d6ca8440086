import SeedLogic.Analysis
import SeedLogic.Hint

/-!
# Spoiler logs

A `SpoilerLog` tells all about a seed, with names in place of numbers: the spheres
of its playthrough, the required and the unreachable locations, the paths and the
hints.
-/

namespace SeedLogic

/-- A location and the item that lies there. -/
structure SpoilerLocation where
  world : WorldId
  location : String
  scene : String
  item? : Option String
  deriving DecidableEq, Repr

/-- A path and its locations. -/
structure SpoilerPath where
  kind : PathKind
  locations : List SpoilerLocation
  deriving DecidableEq, Repr

/-- A hint and the stone that has it. -/
structure SpoilerHint where
  world : WorldId
  gossip : String
  hint : Hint
  deriving DecidableEq, Repr

/-- All about a seed. -/
structure SpoilerLog where
  spheres : List (List SpoilerLocation)
  required : List SpoilerLocation
  unreachable : List SpoilerLocation
  paths : List SpoilerPath
  hints : List SpoilerHint
  deriving DecidableEq, Repr

namespace SpoilerLog

/-- The name of an item of a world, or no name if there is none. -/
def itemName (worlds : List World) (placed : PlayerItem) : String :=
  ((worlds[placed.player]?.bind fun world => world.symbols.items.keys[placed.item]?)).getD ""

/-- What the log says about a location.  A location of no world has no name. -/
def describeLocation (worlds : List World) (placement : Placement) (location : Location) :
    SpoilerLocation :=
  let check? := worlds[location.world]?.bind fun world => world.checks[location.check]?
  { world := location.world
    location := (check?.map Check.name).getD ""
    scene := (check?.map Check.scene).getD ""
    item? := (placement.get? location).map (itemName worlds) }

/-- What the log says about several locations. -/
def describeLocations (worlds : List World) (placement : Placement)
    (locations : List Location) : List SpoilerLocation :=
  locations.map (describeLocation worlds placement)

/-- The name of a hint stone of a world, or no name if there is none. -/
def stoneName (worlds : List World) (world : WorldId) (gossip : GossipId) : String :=
  ((worlds[world]?.bind fun world => world.gossips[gossip]?).map GossipStone.name).getD ""

/-- The hints of a board, by world and then by stone. -/
def describeHints (worlds : List World) (board : HintBoard) : List SpoilerHint :=
  board.stones.zipIdx.flatMap fun stones =>
    stones.1.entries.map fun entry =>
      ⟨stones.2, stoneName worlds stones.2 entry.1, entry.2⟩

/-- The log of an analysis, with the hints of a board if there is one. -/
def ofAnalysis (worlds : List World) (placement : Placement) (analysis : Analysis)
    (board? : Option HintBoard) : SpoilerLog where
  spheres := analysis.spheres.map (describeLocations worlds placement)
  required := describeLocations worlds placement analysis.required.toList
  unreachable := describeLocations worlds placement analysis.unreachable.toList
  paths := analysis.paths.map fun path =>
    ⟨path.kind, describeLocations worlds placement path.locations.toList⟩
  hints := (board?.map (describeHints worlds)).getD []

/-- The distinct names of locations, ascending. -/
def locationNames (locations : List SpoilerLocation) : List String :=
  (Dict.ofList (locations.map fun entry => (entry.location, ()))).keys

end SpoilerLog

end SeedLogic
