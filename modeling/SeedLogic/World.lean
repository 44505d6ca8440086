import SeedLogic.Check
import SeedLogic.Dict
import SeedLogic.Game
import SeedLogic.Location
import SeedLogic.Requirement

/-!
# Worlds

A `World` is the area graph of one player.  Everything in it is numbered by its
place: areas, checks and hint stones by the lists of the world, items, events and
settings by its symbols.
-/

namespace SeedLogic

/-- Something that can be reached from an area, by number, and the requirement to
reach it. -/
structure Gate where
  target : Nat
  requirement : Requirement

/-- An area and its gates to locations, to other areas, to events and to hint
stones. -/
structure Area where
  name : String
  game : Game
  dungeon? : Option String
  locations : List Gate
  exits : List Gate
  events : List Gate
  gossips : List Gate

/-- A check and the item it holds originally. -/
structure Check where
  name : String
  game : Game
  scene : String
  item : String
  kind : CheckKind
  constraint : Constraint
  dungeon? : Option String
  deriving DecidableEq

/-- A hint stone. -/
structure GossipStone where
  name : String
  game : Game
  kind : GossipKind
  deriving DecidableEq, Repr

/-- The area graph of one player. -/
structure World where
  areas : List Area
  checks : List Check
  gossips : List GossipStone
  dungeons : Dict String (List CheckId)
  starts : List AreaId
  symbols : Symbols

namespace World

/-- The number of the area of a name. -/
def areaId? (world : World) (name : String) : Option AreaId :=
  world.areas.findIdx? fun area => area.name == name

/-- The number of the check of a name. -/
def checkId? (world : World) (name : String) : Option CheckId :=
  world.checks.findIdx? fun check => check.name == name

/-- The number of the hint stone of a name. -/
def gossipId? (world : World) (name : String) : Option GossipId :=
  world.gossips.findIdx? fun gossip => gossip.name == name

/-- The number of an item. -/
def itemId? (world : World) (name : String) : Option ItemId :=
  world.symbols.items.get? name

/-- The number of an event. -/
def eventId? (world : World) (name : String) : Option EventId :=
  world.symbols.events.get? name

/-- How many items have a number. -/
def itemCount (world : World) : Nat :=
  world.symbols.items.size

/-- How many events have a number. -/
def eventCount (world : World) : Nat :=
  world.symbols.events.size

/-- The world with one area changed. -/
def withArea (world : World) (id : AreaId) (change : Area → Area) : World :=
  { world with areas := world.areas.modify id change }

end World

end SeedLogic
