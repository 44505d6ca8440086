import SeedLogic.Requirement.Evaluation
import SeedLogic.World

/-!
# States of a search

What has been reached so far, in each world and over all worlds.
-/

namespace SeedLogic

/-- What has been reached in one world. -/
structure WorldState where
  areas : Flags
  locations : Flags
  gossips : Flags
  events : Flags
  inventory : Inventory
  deriving DecidableEq, Repr

namespace WorldState

/-- Nothing reached. -/
def initial (world : World) : WorldState where
  areas := .clear world.areas.length
  locations := .clear world.checks.length
  gossips := .clear world.gossips.length
  events := .clear world.eventCount
  inventory := .empty world.itemCount

/-- What requirements are evaluated against. -/
def situation (state : WorldState) (settings : Flags) : Situation :=
  ⟨state.inventory, state.events, settings⟩

/-- Does the requirement of a gate hold? -/
def opens (state : WorldState) (settings : Flags) (gate : Gate) : Bool :=
  gate.requirement.eval (state.situation settings)

/-- How many areas are reached and events obtained. -/
def reach (state : WorldState) : Nat :=
  state.areas.count + state.events.count

/-- How many areas, events and locations there are. -/
def capacity (state : WorldState) : Nat :=
  state.areas.size + state.events.size + state.locations.size

/-- How many areas, events and locations are reached. -/
def progress (state : WorldState) : Nat :=
  state.reach + state.locations.count

/-- What the worlds count to in all. -/
def total (measure : WorldState → Nat) : List WorldState → Nat
  | [] => 0
  | world :: worlds => measure world + total measure worlds

/-- The state with starting items and events. -/
def equip (state : WorldState) (items : List (ItemId × Nat)) (events : List EventId) :
    WorldState :=
  { state with
    inventory := items.foldl (fun inventory item => inventory.add item.1 item.2) state.inventory
    events := events.foldl Flags.mark state.events }

/-- The state with one item more. -/
def collect (state : WorldState) (item : ItemId) : WorldState :=
  { state with inventory := state.inventory.collect item }

end WorldState

/-- What has been reached in all worlds.  The spheres list the locations by the
round in which they were reached. -/
structure SearchState where
  worlds : List WorldState
  spheres : List (List Location)
  goal : Bool
  deriving DecidableEq, Repr

namespace SearchState

/-- Is a location reached? -/
def isReached (state : SearchState) (location : Location) : Bool :=
  (state.worlds[location.world]?.map fun world => world.locations.has location.check).getD false

/-- Is an event obtained in a world? -/
def hasEvent (state : SearchState) (world : WorldId) (event : EventId) : Bool :=
  (state.worlds[world]?.map fun world => world.events.has event).getD false

/-- The locations reached in a world, ascending. -/
def reachedIn (entry : WorldState × WorldId) : List Location :=
  entry.1.locations.toList.map fun check => ⟨entry.2, check⟩

/-- The locations reached, in ascending order. -/
def reachedLocations (state : SearchState) : List Location :=
  state.worlds.zipIdx.flatMap reachedIn

theorem isReached_iff {state : SearchState} {location : Location} :
    state.isReached location = true ↔ ∃ world, state.worlds[location.world]? = some world ∧
      world.locations.has location.check = true := by
  rw [isReached]
  cases state.worlds[location.world]? <;> simp

theorem mem_reachedLocations {state : SearchState} {location : Location} :
    location ∈ state.reachedLocations ↔ state.isReached location = true := by
  rw [reachedLocations, List.mem_flatMap, isReached_iff]
  constructor
  · rintro ⟨⟨world, id⟩, hentry, hlocation⟩
    rw [List.mk_mem_zipIdx_iff_getElem?] at hentry
    rcases List.mem_map.mp hlocation with ⟨check, hcheck, rfl⟩
    exact ⟨world, hentry, Flags.mem_toList.mp hcheck⟩
  · rintro ⟨world, hworld, hcheck⟩
    refine ⟨(world, location.world), List.mk_mem_zipIdx_iff_getElem?.mpr hworld, ?_⟩
    exact List.mem_map.mpr ⟨location.check, Flags.mem_toList.mpr hcheck, rfl⟩

/-- How many areas, events and locations are reached. -/
def progress (state : SearchState) : Nat :=
  WorldState.total WorldState.progress state.worlds

/-- How many areas, events and locations there are. -/
def capacity (state : SearchState) : Nat :=
  WorldState.total WorldState.capacity state.worlds

end SearchState

/-- A condition on what has been reached. -/
abbrev Goal :=
  SearchState → Bool

namespace Goal

/-- A goal that is never met. -/
def never : Goal :=
  fun _ => false

/-- The goal to obtain every listed event. -/
def events (events : List (WorldId × EventId)) : Goal :=
  fun state => events.all fun entry => state.hasEvent entry.1 entry.2

end Goal

end SeedLogic
