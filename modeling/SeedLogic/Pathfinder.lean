import SeedLogic.Log
import SeedLogic.Pathfinder.Sweep
import SeedLogic.Placement
import SeedLogic.Settings
import SeedLogic.StartingItems

/-!
# Pathfinder

The search for everything that players can reach.  It goes in rounds: all worlds
are closed, then all new locations make up the next sphere, and then the items of
the sphere go to the players who receive them.  The search ends with a round that
changes nothing, or early at its goal.
-/

namespace SeedLogic

/-- Resolve every setting that the requirements of a world read. -/
def World.resolveSettings (world : World) (options : Options) : Flags :=
  ⟨(world.symbols.settings.keys.map options.isEnabled).toArray⟩

/-- A solver for the worlds of all players. -/
structure Pathfinder where
  players : List Player
  starting : StartingItems
  goal : Goal

/-- How a search is to go: which items lie where, what the players start with if
not what the solver says, whether items found are collected, which locations are
never reached, whether to stop at the goal, and whether to look for hint stones. -/
structure SearchOptions where
  items? : Option Placement
  starting? : Option StartingItems
  recursive : Bool
  forbidden : List Location
  stopAtGoal : Bool
  gossips : Bool

/-- The outcome of a search, and the number of rounds it took. -/
structure Search where
  state : SearchState
  iterations : Nat

namespace SearchOptions

/-- A search that collects nothing and goes to its end. -/
def plain : SearchOptions where
  items? := none
  starting? := none
  recursive := false
  forbidden := []
  stopAtGoal := false
  gossips := false

end SearchOptions

namespace Pathfinder

/-! ## Solvers -/

/-- A solver of worlds under options.  Starting items must exist. -/
def ofWorlds (worlds : List World) (options : Options) (starting : StartingItems) :
    Except LogicError Pathfinder := do
  starting.validate worlds
  .ok ⟨worlds.map fun world => ⟨world, world.resolveSettings options⟩, starting, .never⟩

/-- The solver with another goal. -/
def withGoal (pathfinder : Pathfinder) (goal : Goal) : Pathfinder :=
  { pathfinder with goal }

/-- The worlds of all players. -/
def worlds (pathfinder : Pathfinder) : List World :=
  pathfinder.players.map Player.world

/-- The world of a player. -/
def world? (pathfinder : Pathfinder) (id : WorldId) : Option World :=
  pathfinder.players[id]?.map Player.world

/-- The solver with one world replaced by another that reads the same settings. -/
def withWorld (pathfinder : Pathfinder) (id : WorldId) (world : World) : Pathfinder :=
  { pathfinder with
    players := pathfinder.players.modify id fun player => { player with world } }

/-! ## Validation -/

/-- Does a location exist? -/
def hasLocation (pathfinder : Pathfinder) (location : Location) : Bool :=
  match pathfinder.world? location.world with
  | some world => location.check < world.checks.length
  | none => false

/-- Do a player and an item of that player's world exist? -/
def hasItem (pathfinder : Pathfinder) (placed : PlayerItem) : Bool :=
  match pathfinder.world? placed.player with
  | some world => placed.item < world.itemCount
  | none => false

/-- A placed item exists, at a location that exists. -/
def validateEntry (pathfinder : Pathfinder) (entry : Location × PlayerItem) :
    Except LogicError Unit :=
  if !pathfinder.hasLocation entry.1 then
    .error (.invalidOptions (.unknownPlacementLocation entry.1))
  else if !pathfinder.hasItem entry.2 then
    .error (.invalidOptions (.unknownPlacedItem entry.2))
  else .ok ()

/-- A forbidden location exists. -/
def validateForbidden (pathfinder : Pathfinder) (location : Location) :
    Except LogicError Unit :=
  if pathfinder.hasLocation location then .ok ()
  else .error (.invalidOptions (.unknownForbiddenLocation location))

/-- Everything that options speak of exists. -/
def validate (pathfinder : Pathfinder) (options : SearchOptions) : Except LogicError Unit := do
  match options.items? with
  | some placement => placement.items.entries.forM pathfinder.validateEntry
  | none => .ok ()
  options.forbidden.forM pathfinder.validateForbidden
  match options.starting? with
  | some starting => starting.validate pathfinder.worlds
  | none => .ok ()

/-! ## Beginning -/

/-- The areas in which a player starts: named ones, or those of the world. -/
def startAreas (start? : Option (List String)) (world : World) :
    Except LogicError (List AreaId) :=
  match start? with
  | none => .ok world.starts
  | some names =>
      names.mapM fun name =>
        match world.areaId? name with
        | some id => .ok id
        | none => .error (.missingArea name .runStart)

/-- A world in which only the start areas are reached. -/
def beginWorld (start? : Option (List String)) (starting : StartingItems)
    (entry : Player × WorldId) : Except LogicError WorldState := do
  let areas ← startAreas start? entry.1.world
  if areas.isEmpty then .error (.invalidOptions (.noStartArea entry.2))
  else
    let state := (WorldState.initial entry.1.world).equip
      (starting.itemsOf entry.2) (starting.eventsOf entry.2)
    .ok { state with areas := areas.foldl Flags.mark state.areas }

/-- The state in which only the start areas are reached. -/
def begin (pathfinder : Pathfinder) (start? : Option (List String))
    (starting : StartingItems) : Except LogicError SearchState := do
  let worlds ← pathfinder.players.zipIdx.mapM (beginWorld start? starting)
  .ok ⟨worlds, [], false⟩

/-! ## Rounds -/

/-- Close every world. -/
def close (pathfinder : Pathfinder) (gossips : Bool) (worlds : List WorldState) :
    List WorldState :=
  List.zipWith (fun player state => player.close gossips state) pathfinder.players worlds

/-- Reach the new locations of every world. -/
def search (pathfinder : Pathfinder) (forbidden : List Location) (worlds : List WorldState) :
    List (WorldState × List Location) :=
  (pathfinder.players.zip worlds).zipIdx.map fun entry =>
    entry.1.1.search entry.2 forbidden entry.1.2

/-- Give the item at a location to the player who receives it. -/
def deliver (placement : Placement) (worlds : List WorldState) (location : Location) :
    List WorldState :=
  match placement.get? location with
  | some placed => worlds.modify placed.player fun state => state.collect placed.item
  | none => worlds

/-- Give the items of a sphere to the players who receive them, if they are collected. -/
def deliverAll (options : SearchOptions) (worlds : List WorldState) (sphere : List Location) :
    List WorldState :=
  match options.recursive, options.items? with
  | true, some placement => sphere.foldl (deliver placement) worlds
  | _, _ => worlds

/-- One round of a search. -/
def round (pathfinder : Pathfinder) (options : SearchOptions) (state : SearchState) :
    SearchState :=
  let found := pathfinder.search options.forbidden (pathfinder.close options.gossips state.worlds)
  let sphere := found.flatMap Prod.snd
  let worlds := deliverAll options (found.map Prod.fst) sphere
  let spheres := if sphere.isEmpty then state.spheres else state.spheres ++ [sphere]
  let next : SearchState := ⟨worlds, spheres, state.goal⟩
  { next with goal := next.goal || pathfinder.goal next }

/-- Rounds until the goal, if asked for, or until one changes nothing; at most `fuel`.
`iterations` counts those before. -/
def rounds (pathfinder : Pathfinder) (options : SearchOptions) :
    (fuel : Nat) → (iterations : Nat) → SearchState → Search
  | 0, iterations, state => ⟨state, iterations⟩
  | fuel + 1, iterations, state =>
      let next := pathfinder.round options state
      if next.goal && options.stopAtGoal then ⟨next, iterations + 1⟩
      else if next.progress = state.progress then ⟨next, iterations + 1⟩
      else pathfinder.rounds options fuel (iterations + 1) next

/-- Search from named start areas, or from those of each world.  Every round but the
last reaches an area, an event or a location more. -/
def run (pathfinder : Pathfinder) (start? : Option (List String)) (options : SearchOptions) :
    Except LogicError Search := do
  pathfinder.validate options
  let state ← pathfinder.begin start? (options.starting?.getD pathfinder.starting)
  .ok (pathfinder.rounds options (state.capacity + 1) 0 state)

/-- Search, and report about it. -/
def runLogged (pathfinder : Pathfinder) (start? : Option (List String))
    (options : SearchOptions) : Logged LogicError SearchState := do
  let search ← .lift (pathfinder.run start? options)
  .note (.runFinished search.iterations search.state.spheres.length search.state.goal)
  pure search.state

end Pathfinder

end SeedLogic
