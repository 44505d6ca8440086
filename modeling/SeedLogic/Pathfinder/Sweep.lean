import SeedLogic.Pathfinder.State

/-!
# Sweeping a world

A sweep walks through the areas of a world in their order and, in each that is
reached, obtains the events and takes the exits whose requirements hold.  A world
is closed by sweeping it until a sweep reaches nothing new.
-/

namespace SeedLogic

/-- A world with the settings that its requirements read, resolved. -/
structure Player where
  world : World
  settings : Flags

namespace Player

/-- Obtain an event if its requirement holds. -/
def takeEvent (settings : Flags) (state : WorldState) (gate : Gate) : WorldState :=
  if state.opens settings gate then { state with events := state.events.mark gate.target }
  else state

/-- Take an exit if its requirement holds. -/
def takeExit (settings : Flags) (state : WorldState) (gate : Gate) : WorldState :=
  if state.opens settings gate then { state with areas := state.areas.mark gate.target }
  else state

/-- Reach a hint stone if its requirement holds. -/
def takeGossip (settings : Flags) (state : WorldState) (gate : Gate) : WorldState :=
  if state.opens settings gate then { state with gossips := state.gossips.mark gate.target }
  else state

/-- Go through an area that is reached: first its events, then its exits and, if
asked for, its hint stones. -/
def visitArea (settings : Flags) (gossips : Bool) (state : WorldState)
    (entry : Area × AreaId) : WorldState :=
  if state.areas.has entry.2 then
    let state := entry.1.events.foldl (takeEvent settings) state
    let state := entry.1.exits.foldl (takeExit settings) state
    if gossips then entry.1.gossips.foldl (takeGossip settings) state else state
  else state

/-- Go through all areas once. -/
def sweep (player : Player) (gossips : Bool) (state : WorldState) : WorldState :=
  player.world.areas.zipIdx.foldl (visitArea player.settings gossips) state

/-- Sweep until nothing new is reached, at most `fuel` times. -/
def sweepUntilStable (player : Player) (gossips : Bool) :
    (fuel : Nat) → WorldState → WorldState
  | 0, state => state
  | fuel + 1, state =>
      let next := player.sweep gossips state
      if next.reach = state.reach then next
      else player.sweepUntilStable gossips fuel next

/-- Reach every area and event that the items at hand allow.  Each sweep but the
last reaches an area or an event more. -/
def close (player : Player) (gossips : Bool) (state : WorldState) : WorldState :=
  player.sweepUntilStable gossips (state.areas.size + state.events.size + 1) state

/-! ## Locations -/

/-- Reach a location that is new, not forbidden, and whose requirement holds. -/
def takeLocation (settings : Flags) (id : WorldId) (forbidden : List Location)
    (found : WorldState × List Location) (gate : Gate) : WorldState × List Location :=
  let location : Location := ⟨id, gate.target⟩
  if found.1.locations.has gate.target || forbidden.contains location then found
  else if found.1.opens settings gate then
    ({ found.1 with locations := found.1.locations.mark gate.target }, found.2 ++ [location])
  else found

/-- Reach the locations of an area that is reached. -/
def searchArea (settings : Flags) (id : WorldId) (forbidden : List Location)
    (found : WorldState × List Location) (entry : Area × AreaId) :
    WorldState × List Location :=
  if found.1.areas.has entry.2 then
    entry.1.locations.foldl (takeLocation settings id forbidden) found
  else found

/-- Reach the locations of all reached areas, and list the new ones. -/
def search (player : Player) (id : WorldId) (forbidden : List Location) (state : WorldState) :
    WorldState × List Location :=
  player.world.areas.zipIdx.foldl (searchArea player.settings id forbidden) (state, [])

end Player

end SeedLogic
