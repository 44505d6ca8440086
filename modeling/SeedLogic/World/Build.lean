import SeedLogic.Log
import SeedLogic.Settings
import SeedLogic.World.Draft

/-!
# Building worlds

The second half of building a world: once all tables are loaded, the names in a
draft are replaced by numbers.  A world is built only if every name refers to
something.
-/

namespace SeedLogic

namespace Draft

/-! ## References -/

/-- The gate to a location that some table has a check for. -/
def linkLocation (draft : Draft) (area : String) (gate : NamedGate) : Except LogicError Gate :=
  match draft.checks.findIdx? fun check => check.name == gate.target with
  | some id => .ok ⟨id, gate.requirement⟩
  | none => .error (.missingLocation gate.target area)

/-- The number of an area that some table describes. -/
def areaId (draft : Draft) (reference : AreaReference) (name : String) :
    Except LogicError AreaId :=
  match draft.areas.findIdx? fun area => area.name == name with
  | some id => .ok id
  | none => .error (.missingArea name reference)

/-- The gate to another area. -/
def linkExit (draft : Draft) (area : String) (gate : NamedGate) : Except LogicError Gate := do
  let id ← draft.areaId (.area area) gate.target
  .ok ⟨id, gate.requirement⟩

/-- The gate to a hint stone that some table declares. -/
def linkGossip (draft : Draft) (gate : NamedGate) : Except LogicError Gate :=
  match draft.gossips.findIdx? fun gossip => gossip.name == gate.target with
  | some id => .ok ⟨id, gate.requirement⟩
  | none => .error (.unknownSymbol .gossip gate.target)

/-- An area with numbers for names. -/
def linkArea (draft : Draft) (area : AreaDraft) : Except LogicError Area := do
  let locations ← area.locations.mapM (draft.linkLocation area.name)
  let exits ← area.exits.mapM (draft.linkExit area.name)
  let gossips ← area.gossips.mapM draft.linkGossip
  .ok ⟨area.name, area.game, area.dungeon?, locations, exits, area.events, gossips⟩

/-! ## Dungeons -/

/-- The checks with the dungeon of an area on one of its locations. -/
def tagCheck (dungeon : String) (checks : List Check) (gate : Gate) : List Check :=
  checks.modify gate.target fun check => { check with dungeon? := some dungeon }

/-- The checks with the dungeon of an area on its locations. -/
def tagChecks (checks : List Check) (area : Area) : List Check :=
  match area.dungeon? with
  | some dungeon => area.locations.foldl (tagCheck dungeon) checks
  | none => checks

/-- Ascending checks with one more. -/
def insertCheck (id : CheckId) : List CheckId → List CheckId
  | [] => [id]
  | other :: ids =>
      if id < other then id :: other :: ids
      else if id = other then other :: ids
      else other :: insertCheck id ids

/-- The checks of each dungeon with one of the locations of an area added to its dungeon. -/
def indexCheck (dungeon : String) (index : Dict String (List CheckId)) (gate : Gate) :
    Dict String (List CheckId) :=
  index.insert dungeon (insertCheck gate.target ((index.find? dungeon).getD []))

/-- The checks of each dungeon with the locations of an area added to its dungeon. -/
def indexChecks (index : Dict String (List CheckId)) (area : Area) : Dict String (List CheckId) :=
  match area.dungeon? with
  | some dungeon => area.locations.foldl (indexCheck dungeon) index
  | none => index

/-! ## Symbols -/

/-- Every mentioned item is declared, every mentioned event is defined, and every
mentioned setting is known; otherwise the first that is not. -/
def checkSymbols (draft : Draft) (options : Options) : Except LogicError Unit :=
  let symbols := draft.symbols
  match symbols.items.keys.find? fun name => !draft.declaredItems.contains name with
  | some name => .error (.unknownSymbol .item name)
  | none =>
      match symbols.events.keys.find? fun name => !draft.definedEvents.contains name with
      | some name => .error (.unknownSymbol .event name)
      | none =>
          match symbols.settings.keys.find? fun key => !options.knows key.name with
          | some key => .error (.unknownSymbol .setting key.name)
          | none => .ok ()

/-- The world of a draft. -/
def link (draft : Draft) (options : Options) : Except LogicError World := do
  let areas ← draft.areas.mapM draft.linkArea
  let starts ← draft.starts.mapM (draft.areaId .tableStart)
  draft.checkSymbols options
  .ok
    { areas
      checks := areas.foldl tagChecks draft.checks
      gossips := draft.gossips
      dungeons := areas.foldl indexChecks .empty
      starts
      symbols := draft.symbols }

/-- Load tables one after the other. -/
def loadAll (constraint : String → Constraint) :
    Draft → List GameTable → Logged LogicError Draft
  | draft, [] => pure draft
  | draft, table :: tables => do
      let draft ← .lift (draft.load constraint table)
      .note (.tableLoaded table.game table.areas.size table.pool.length)
      loadAll constraint draft tables

end Draft

/-- The world of a player, built from the tables of all games under given options.
`constraint` says where the item of a check may be placed. -/
def World.build (tables : List GameTable) (options : Options)
    (constraint : String → Constraint) : Logged LogicError World := do
  let draft ← Draft.loadAll constraint .empty tables
  let world ← .lift (draft.link options)
  .note (.worldBuilt world.areas.length world.checks.length world.itemCount world.eventCount)
  pure world

end SeedLogic
