import SeedLogic.Pathfinder

/-!
# The search, index by index

A search reads and writes tables by number, and passes over a number that a table does
not have.  Here is the same search in which no number is passed over: every access goes to
the table itself, and is `none` out of range.  Areas, players and their worlds are walked
through by their numbers, a flag is read before it is set, and a requirement reads every
number in it, also where its truth is known before.
-/

namespace SeedLogic

/-! ## Accesses -/

namespace Flags

/-- Is the number set?  The table must have it. -/
def read? (flags : Flags) (id : Nat) : Option Bool :=
  flags.bits[id]?

/-- Set a number, which the table must have. -/
def write? (flags : Flags) (id : Nat) : Option Flags :=
  if id < flags.size then some (flags.mark id) else none

end Flags

namespace Inventory

/-- Size of the table. -/
def size (inventory : Inventory) : Nat :=
  inventory.counts.size

/-- How many of an item there are.  The table must have it. -/
def read? (inventory : Inventory) (item : Nat) : Option Nat :=
  inventory.counts[item]?

/-- Add some of an item, which the table must have. -/
def gain? (inventory : Inventory) (item amount : Nat) : Option Inventory :=
  if item < inventory.size then some (inventory.add item amount) else none

end Inventory

/-- Change an entry, which the list must have. -/
def modify? {σ : Type} (change? : σ → Option σ) (id : Nat) (states : List σ) :
    Option (List σ) := do
  let state ← states[id]?
  some (states.set id (← change? state))

/-- An outcome, or `none` where an access is out of range. -/
abbrev Checked :=
  ExceptT LogicError Option

namespace Checked

/-- An outcome that takes no access. -/
def outcome {α : Type} (result : Except LogicError α) : Checked α :=
  ExceptT.mk (some result)

/-- What an access gives. -/
def access {α : Type} (value? : Option α) : Checked α :=
  ExceptT.lift value?

end Checked

/-! ## Requirements -/

namespace Requirement

mutual

/-- Does the requirement hold?  Every number in it is read. -/
def eval? (situation : Situation) : Requirement → Option Bool
  | .const value => some value
  | .hasItem item count => do some (count ≤ (← situation.inventory.read? item))
  | .hasEvent event => situation.events.read? event
  | .not operand => do some !(← eval? situation operand)
  | .and operands => do some ((← evalEach? situation operands).all id)
  | .or operands => do some ((← evalEach? situation operands).any id)
  | .atLeast count operands => do some (count ≤ (← evalEach? situation operands).countP id)
  | .setting id => situation.settings.read? id

/-- Which requirements of a list hold? -/
def evalEach? (situation : Situation) : List Requirement → Option (List Bool)
  | [] => some []
  | operand :: operands => do
      let value ← eval? situation operand
      some (value :: (← evalEach? situation operands))

end

end Requirement

/-- Does the requirement of a gate hold? -/
def WorldState.opens? (state : WorldState) (settings : Flags) (gate : Gate) : Option Bool :=
  gate.requirement.eval? (state.situation settings)

/-! ## Closing and searching a world -/

namespace Player

/-- Set the target of a gate in a table, unless it is set, if its requirement holds. -/
def passGate? (table : WorldState → Flags) (update : WorldState → Flags → WorldState)
    (settings : Flags) (state : WorldState) (gate : Gate) : Option WorldState := do
  if ← (table state).read? gate.target then some state
  else if ← state.opens? settings gate then
    some (update state (← (table state).write? gate.target))
  else some state

def takeEvent? : Flags → WorldState → Gate → Option WorldState :=
  passGate? WorldState.events fun state events => { state with events }

def takeExit? : Flags → WorldState → Gate → Option WorldState :=
  passGate? WorldState.areas fun state areas => { state with areas }

def takeGossip? : Flags → WorldState → Gate → Option WorldState :=
  passGate? WorldState.gossips fun state gossips => { state with gossips }

/-- Go through the area of a number, if it is reached. -/
def visitArea? (player : Player) (gossips : Bool) (state : WorldState) (id : AreaId) :
    Option WorldState := do
  if ← state.areas.read? id then
    let area ← player.world.areas[id]?
    let state ← area.events.foldlM (takeEvent? player.settings) state
    let state ← area.exits.foldlM (takeExit? player.settings) state
    if gossips then area.gossips.foldlM (takeGossip? player.settings) state else some state
  else some state

def sweep? (player : Player) (gossips : Bool) (state : WorldState) : Option WorldState :=
  (List.range state.areas.size).foldlM (player.visitArea? gossips) state

def sweepUntilStable? (player : Player) (gossips : Bool) :
    (fuel : Nat) → WorldState → Option WorldState
  | 0, state => some state
  | fuel + 1, state => do
      let next ← player.sweep? gossips state
      if next.reach = state.reach then some next
      else player.sweepUntilStable? gossips fuel next

def close? (player : Player) (gossips : Bool) (state : WorldState) : Option WorldState :=
  player.sweepUntilStable? gossips (state.areas.size + state.events.size + 1) state

/-- Reach a location that is new, not forbidden, and whose requirement holds. -/
def takeLocation? (settings : Flags) (id : WorldId) (forbidden : List Location)
    (found : WorldState × List Location) (gate : Gate) :
    Option (WorldState × List Location) := do
  let location : Location := ⟨id, gate.target⟩
  if ← found.1.locations.read? gate.target then some found
  else if forbidden.contains location then some found
  else if ← found.1.opens? settings gate then
    let locations ← found.1.locations.write? gate.target
    some ({ found.1 with locations }, found.2 ++ [location])
  else some found

def searchArea? (player : Player) (id : WorldId) (forbidden : List Location)
    (found : WorldState × List Location) (area : AreaId) :
    Option (WorldState × List Location) := do
  if ← found.1.areas.read? area then
    let area ← player.world.areas[area]?
    area.locations.foldlM (takeLocation? player.settings id forbidden) found
  else some found

def search? (player : Player) (id : WorldId) (forbidden : List Location) (state : WorldState) :
    Option (WorldState × List Location) :=
  (List.range state.areas.size).foldlM (player.searchArea? id forbidden) (state, [])

end Player

/-! ## Validation -/

/-- The items and events of every player exist in the world of the player's number. -/
def StartingItems.validate? (starting : StartingItems) (worlds : List World) : Checked Unit := do
  if starting.players > worlds.length then
    .outcome (.error (.invalidOptions (.startingSurplus (starting.players - 1) worlds.length)))
  else
    starting.items.zipIdx.forM fun entry => do
      let world ← .access worlds[entry.2]?
      .outcome (validateItems ((world, entry.1), entry.2))
    starting.events.zipIdx.forM fun entry => do
      let world ← .access worlds[entry.2]?
      .outcome (validateEvents ((world, entry.1), entry.2))

namespace Pathfinder

/-- Is there a world of a number, with a place of another number in one of its tables? -/
def hasPlace? (pathfinder : Pathfinder) (id : WorldId) (size : World → Nat) (place : Nat) :
    Option Bool :=
  if id < pathfinder.worlds.length then do
    let world ← pathfinder.worlds[id]?
    some (place < size world)
  else some false

def hasLocation? (pathfinder : Pathfinder) (location : Location) : Option Bool :=
  pathfinder.hasPlace? location.world (fun world => world.checks.length) location.check

def hasItem? (pathfinder : Pathfinder) (placed : PlayerItem) : Option Bool :=
  pathfinder.hasPlace? placed.player World.itemCount placed.item

def validatePlaced? (pathfinder : Pathfinder) (entry : Location × PlayerItem) :
    Checked Unit := do
  if !(← .access (pathfinder.hasLocation? entry.1)) then
    .outcome (.error (.invalidOptions (.unknownPlacementLocation entry.1)))
  else if !(← .access (pathfinder.hasItem? entry.2)) then
    .outcome (.error (.invalidOptions (.unknownPlacedItem entry.2)))
  else pure ()

def validateForbidden? (pathfinder : Pathfinder) (location : Location) : Checked Unit := do
  if ← .access (pathfinder.hasLocation? location) then pure ()
  else .outcome (.error (.invalidOptions (.unknownForbiddenLocation location)))

def validate? (pathfinder : Pathfinder) (options : SearchOptions) : Checked Unit := do
  match options.items? with
  | some placement => placement.items.entries.forM pathfinder.validatePlaced?
  | none => pure ()
  options.forbidden.forM pathfinder.validateForbidden?
  match options.starting? with
  | some starting => starting.validate? pathfinder.worlds
  | none => pure ()

/-! ## Beginning -/

def gainItem? (state : WorldState) (item : ItemId × Nat) : Option WorldState := do
  some { state with inventory := ← state.inventory.gain? item.1 item.2 }

def gainEvent? (state : WorldState) (event : EventId) : Option WorldState := do
  some { state with events := ← state.events.write? event }

/-- Give each player, by number, what is meant for the player. -/
def grantEach? {γ : Type} (grant? : WorldState → γ → Option WorldState) (gifts : List (List γ))
    (states : List WorldState) : Option (List WorldState) :=
  gifts.zipIdx.foldlM (fun states entry => modify? (entry.1.foldlM grant?) entry.2 states) states

def equipAll? (starting : StartingItems) (states : List WorldState) :
    Option (List WorldState) := do
  grantEach? gainEvent? starting.events (← grantEach? gainItem? starting.items states)

def beginWorld? (start? : Option (List String)) (states : List WorldState)
    (entry : Player × WorldId) : Checked WorldState := do
  let starts ← .outcome (startAreas start? entry.1.world)
  if starts.isEmpty then .outcome (.error (.invalidOptions (.noStartArea entry.2)))
  else
    let state ← .access states[entry.2]?
    let areas ← .access (starts.foldlM Flags.write? state.areas)
    pure { state with areas }

def begin? (pathfinder : Pathfinder) (start? : Option (List String)) (starting : StartingItems) :
    Checked SearchState := do
  let states ← .access (equipAll? starting (pathfinder.worlds.map WorldState.initial))
  let worlds ← pathfinder.players.zipIdx.mapM (beginWorld? start? states)
  pure ⟨worlds, [], false⟩

/-! ## Rounds -/

/-- Close the world of every state. -/
def closeAll? (pathfinder : Pathfinder) (gossips : Bool) (states : List WorldState) :
    Option (List WorldState) :=
  states.zipIdx.mapM fun entry => do
    let player ← pathfinder.players[entry.2]?
    player.close? gossips entry.1

/-- Search the world of every state. -/
def searchAll? (pathfinder : Pathfinder) (forbidden : List Location) (states : List WorldState) :
    Option (List (WorldState × List Location)) :=
  states.zipIdx.mapM fun entry => do
    let player ← pathfinder.players[entry.2]?
    player.search? entry.2 forbidden entry.1

def deliver? (placement : Placement) (states : List WorldState) (location : Location) :
    Option (List WorldState) :=
  match placement.get? location with
  | some placed => modify? (fun state => gainItem? state (placed.item, 1)) placed.player states
  | none => some states

def deliverAll? (options : SearchOptions) (states : List WorldState) (sphere : List Location) :
    Option (List WorldState) :=
  match options.recursive, options.items? with
  | true, some placement => sphere.foldlM (deliver? placement) states
  | _, _ => some states

/-- One round of a search, whose goal reads the state in a way of its own. -/
def round? (pathfinder : Pathfinder) (goal? : SearchState → Option Bool) (options : SearchOptions)
    (state : SearchState) : Option SearchState := do
  let closed ← pathfinder.closeAll? options.gossips state.worlds
  let found ← pathfinder.searchAll? options.forbidden closed
  let sphere := found.flatMap Prod.snd
  let worlds ← deliverAll? options (found.map Prod.fst) sphere
  let spheres := if sphere.isEmpty then state.spheres else state.spheres ++ [sphere]
  let next : SearchState := ⟨worlds, spheres, state.goal⟩
  let reached ← goal? next
  some { next with goal := next.goal || reached }

def rounds? (pathfinder : Pathfinder) (goal? : SearchState → Option Bool)
    (options : SearchOptions) : (fuel : Nat) → (iterations : Nat) → SearchState → Option Search
  | 0, iterations, state => some ⟨state, iterations⟩
  | fuel + 1, iterations, state => do
      let next ← pathfinder.round? goal? options state
      if next.goal && options.stopAtGoal then some ⟨next, iterations + 1⟩
      else if next.progress = state.progress then some ⟨next, iterations + 1⟩
      else pathfinder.rounds? goal? options fuel (iterations + 1) next

/-- Search, index by index. -/
def run? (pathfinder : Pathfinder) (goal? : SearchState → Option Bool)
    (start? : Option (List String)) (options : SearchOptions) : Checked Search := do
  pathfinder.validate? options
  let state ← pathfinder.begin? start? (options.starting?.getD pathfinder.starting)
  .access (pathfinder.rounds? goal? options (state.capacity + 1) 0 state)

end Pathfinder

/-- Are all events of a list obtained?  Each of them is read. -/
def Goal.events? (events : List (WorldId × EventId)) (state : SearchState) : Option Bool := do
  let obtained ← events.mapM fun entry => do
    let world ← state.worlds[entry.1]?
    world.events.read? entry.2
  some (obtained.all id)

end SeedLogic
