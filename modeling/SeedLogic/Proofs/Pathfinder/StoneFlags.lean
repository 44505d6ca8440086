import SeedLogic.Proofs.Pathfinder.Beginning

/-!
# Searches that ask for hint stones

Nothing that a search does depends on which hint stones it has reached, unless its goal
does.  So a search that asks for hint stones and one that does not go through the same
states, except for the flags of the stones, which the latter leaves clear
(`run_asking_false`).
-/

namespace SeedLogic

/-! ## States without stones -/

/-- The state with no hint stone reached. -/
def WorldState.withoutStones (state : WorldState) : WorldState :=
  { state with gossips := .clear state.gossips.size }

/-- The state with no hint stone reached in any world. -/
def SearchState.withoutStones (state : SearchState) : SearchState :=
  { state with worlds := state.worlds.map WorldState.withoutStones }

/-- The outcome with no hint stone reached. -/
def Search.withoutStones (search : Search) : Search :=
  { search with state := search.state.withoutStones }

/-- The goal does not depend on the hint stones that are reached. -/
def Goal.IgnoresStones (goal : Goal) : Prop :=
  ∀ state : SearchState, goal state.withoutStones = goal state

/-- The options, asking for hint stones or not. -/
def SearchOptions.asking (options : SearchOptions) (gossips : Bool) : SearchOptions :=
  { options with gossips }

theorem Goal.ignoresStones_events (events : List (WorldId × EventId)) :
    (Goal.events events).IgnoresStones := by
  intro state
  have hevent : ∀ entry : WorldId × EventId,
      state.withoutStones.hasEvent entry.1 entry.2 = state.hasEvent entry.1 entry.2 := by
    intro entry
    rw [SearchState.hasEvent, SearchState.hasEvent, SearchState.withoutStones, List.getElem?_map,
      Option.map_map]
    rfl
  simp only [Goal.events, hevent]

namespace Player

/-! ## Closing a world -/

theorem takeEvent_withoutStones (settings : Flags) (state : WorldState) (gate : Gate) :
    takeEvent settings state.withoutStones gate =
      (takeEvent settings state gate).withoutStones := by
  have hopens : state.withoutStones.opens settings gate = state.opens settings gate := rfl
  unfold takeEvent
  rw [hopens]
  split <;> rfl

theorem takeExit_withoutStones (settings : Flags) (state : WorldState) (gate : Gate) :
    takeExit settings state.withoutStones gate = (takeExit settings state gate).withoutStones := by
  have hopens : state.withoutStones.opens settings gate = state.opens settings gate := rfl
  unfold takeExit
  rw [hopens]
  split <;> rfl

/-- To take hint stones does nothing but reach them. -/
theorem withoutStones_foldl_takeGossip (settings : Flags) (gates : List Gate)
    (state : WorldState) :
    (gates.foldl (takeGossip settings) state).withoutStones = state.withoutStones := by
  have htake : ∀ (state : WorldState) (gate : Gate),
      state.withoutStones = (takeGossip settings state gate).withoutStones := by
    intro state gate
    unfold takeGossip
    split
    · rw [WorldState.withoutStones, WorldState.withoutStones, Flags.size_mark]
    · rfl
  induction gates generalizing state with
  | nil => rfl
  | cons gate gates ih => rw [List.foldl_cons, ih, ← htake]

theorem visitArea_withoutStones (settings : Flags) (gossips : Bool) (state : WorldState)
    (entry : Area × AreaId) :
    visitArea settings false state.withoutStones entry =
      (visitArea settings gossips state entry).withoutStones := by
  have hreached : state.withoutStones.areas = state.areas := rfl
  simp only [visitArea, hreached, Bool.false_eq_true, if_false]
  split
  case isFalse => rfl
  case isTrue =>
    rw [List.foldl_hom WorldState.withoutStones (takeEvent_withoutStones settings),
      List.foldl_hom WorldState.withoutStones (takeExit_withoutStones settings)]
    split
    · rw [withoutStones_foldl_takeGossip]
    · rfl

variable (player : Player) (gossips : Bool)

theorem sweep_withoutStones (state : WorldState) :
    player.sweep false state.withoutStones = (player.sweep gossips state).withoutStones :=
  List.foldl_hom WorldState.withoutStones (visitArea_withoutStones player.settings gossips)

theorem sweepUntilStable_withoutStones (fuel : Nat) (state : WorldState) :
    player.sweepUntilStable false fuel state.withoutStones =
      (player.sweepUntilStable gossips fuel state).withoutStones := by
  induction fuel generalizing state with
  | zero => rfl
  | succ fuel ih =>
      have hreach : ∀ state : WorldState, state.withoutStones.reach = state.reach := fun _ => rfl
      simp only [sweepUntilStable, sweep_withoutStones player gossips, hreach]
      split
      · rfl
      · exact ih _

theorem close_withoutStones (state : WorldState) :
    player.close false state.withoutStones = (player.close gossips state).withoutStones :=
  player.sweepUntilStable_withoutStones gossips _ state

/-! ## Searching a world -/

/-- What is found in a world, with no hint stone reached. -/
def foundWithoutStones (found : WorldState × List Location) : WorldState × List Location :=
  (found.1.withoutStones, found.2)

theorem takeLocation_withoutStones (settings : Flags) (id : WorldId) (forbidden : List Location)
    (found : WorldState × List Location) (gate : Gate) :
    takeLocation settings id forbidden (foundWithoutStones found) gate =
      foundWithoutStones (takeLocation settings id forbidden found gate) := by
  have hlocations : (foundWithoutStones found).1.locations = found.1.locations := rfl
  have hopens : (foundWithoutStones found).1.opens settings gate = found.1.opens settings gate :=
    rfl
  simp only [takeLocation, hlocations, hopens]
  split
  case isTrue => rfl
  case isFalse => split <;> rfl

theorem searchArea_withoutStones (settings : Flags) (id : WorldId) (forbidden : List Location)
    (found : WorldState × List Location) (entry : Area × AreaId) :
    searchArea settings id forbidden (foundWithoutStones found) entry =
      foundWithoutStones (searchArea settings id forbidden found entry) := by
  have hareas : (foundWithoutStones found).1.areas = found.1.areas := rfl
  simp only [searchArea, hareas]
  split
  case isTrue =>
    exact List.foldl_hom foundWithoutStones (takeLocation_withoutStones settings id forbidden)
  case isFalse => rfl

theorem search_withoutStones (id : WorldId) (forbidden : List Location) (state : WorldState) :
    player.search id forbidden state.withoutStones =
      foundWithoutStones (player.search id forbidden state) := by
  unfold search
  rw [← List.foldl_hom foundWithoutStones (searchArea_withoutStones player.settings id forbidden)]
  rfl

end Player

namespace Pathfinder

variable (pathfinder : Pathfinder) (options : SearchOptions) (gossips : Bool)

/-! ## Rounds -/

theorem close_map_withoutStones (worlds : List WorldState) :
    pathfinder.close false (worlds.map WorldState.withoutStones) =
      (pathfinder.close gossips worlds).map WorldState.withoutStones := by
  simp only [close, List.zipWith_map_right, List.map_zipWith,
    Player.close_withoutStones _ gossips]

theorem search_map_withoutStones (forbidden : List Location) (worlds : List WorldState) :
    pathfinder.search forbidden (worlds.map WorldState.withoutStones) =
      (pathfinder.search forbidden worlds).map Player.foundWithoutStones := by
  simp only [search, List.zip_map_right, List.zipIdx_map, List.map_map]
  apply List.map_congr_left
  intro entry _
  exact entry.1.1.search_withoutStones entry.2 forbidden entry.1.2

theorem deliver_map_withoutStones (placement : Placement) (worlds : List WorldState)
    (location : Location) :
    deliver placement (worlds.map WorldState.withoutStones) location =
      (deliver placement worlds location).map WorldState.withoutStones := by
  unfold deliver
  split
  case h_1 placed _ =>
    apply List.ext_getElem?
    intro id
    simp only [List.getElem?_modify, List.getElem?_map]
    cases worlds[id]? with
    | none => rfl
    | some world =>
        simp only [Option.map_some, Option.map_eq_map]
        split <;> rfl
  case h_2 => rfl

theorem deliverAll_map_withoutStones (worlds : List WorldState) (sphere : List Location) :
    deliverAll (options.asking false) (worlds.map WorldState.withoutStones) sphere =
      (deliverAll (options.asking gossips) worlds sphere).map WorldState.withoutStones := by
  simp only [deliverAll, SearchOptions.asking]
  split
  case h_1 placement _ _ =>
    exact List.foldl_hom (List.map WorldState.withoutStones) (deliver_map_withoutStones placement)
  case h_2 => rfl

/-- The state, in which it is remembered whether the goal is met. -/
def noteGoal (pathfinder : Pathfinder) (state : SearchState) : SearchState :=
  { state with goal := state.goal || pathfinder.goal state }

theorem round_eq_noteGoal (options : SearchOptions) (state : SearchState) :
    pathfinder.round options state = pathfinder.noteGoal
      ⟨deliverAll options ((pathfinder.findings options state).map Prod.fst)
          (pathfinder.sphere options state),
        if (pathfinder.sphere options state).isEmpty then state.spheres
        else state.spheres ++ [pathfinder.sphere options state],
        state.goal⟩ :=
  rfl

theorem findings_withoutStones (state : SearchState) :
    pathfinder.findings (options.asking false) state.withoutStones =
      (pathfinder.findings (options.asking gossips) state).map Player.foundWithoutStones := by
  have hclose := pathfinder.close_map_withoutStones gossips state.worlds
  have hsearch := pathfinder.search_map_withoutStones options.forbidden
    (pathfinder.close gossips state.worlds)
  rw [← hclose] at hsearch
  exact hsearch

theorem sphere_withoutStones (state : SearchState) :
    pathfinder.sphere (options.asking false) state.withoutStones =
      pathfinder.sphere (options.asking gossips) state := by
  rw [sphere, findings_withoutStones pathfinder options gossips, List.flatMap_map]
  rfl

section Goal

variable {pathfinder} (hgoal : pathfinder.goal.IgnoresStones)
include hgoal

theorem noteGoal_withoutStones (state : SearchState) :
    pathfinder.noteGoal state.withoutStones = (pathfinder.noteGoal state).withoutStones := by
  rw [noteGoal, hgoal]
  rfl

/-- A round goes the same way whether hint stones are asked for or not. -/
theorem round_withoutStones (state : SearchState) :
    pathfinder.round (options.asking false) state.withoutStones =
      (pathfinder.round (options.asking gossips) state).withoutStones := by
  have hworlds : deliverAll (options.asking false)
      (((pathfinder.findings (options.asking gossips) state).map
        Player.foundWithoutStones).map Prod.fst) (pathfinder.sphere (options.asking gossips) state) =
        (deliverAll (options.asking gossips)
          ((pathfinder.findings (options.asking gossips) state).map Prod.fst)
          (pathfinder.sphere (options.asking gossips) state)).map WorldState.withoutStones := by
    rw [← deliverAll_map_withoutStones, List.map_map, List.map_map]
    rfl
  rw [round_eq_noteGoal, round_eq_noteGoal, findings_withoutStones pathfinder options gossips,
    sphere_withoutStones pathfinder options gossips, hworlds, ← noteGoal_withoutStones hgoal]
  rfl

theorem rounds_withoutStones (fuel iterations : Nat) (state : SearchState) :
    pathfinder.rounds (options.asking false) fuel iterations state.withoutStones =
      (pathfinder.rounds (options.asking gossips) fuel iterations state).withoutStones := by
  have hprogress : ∀ state : SearchState, state.withoutStones.progress = state.progress := by
    intro state
    simp only [SearchState.progress, SearchState.withoutStones]
    induction state.worlds with
    | nil => rfl
    | cons world worlds ih =>
        simp only [List.map_cons, WorldState.total, ih]
        rfl
  have hmet : ∀ state : SearchState, state.withoutStones.goal = state.goal := fun _ => rfl
  have hstop : ∀ gossips, (options.asking gossips).stopAtGoal = options.stopAtGoal := fun _ => rfl
  induction fuel generalizing iterations state with
  | zero => rfl
  | succ fuel ih =>
      simp only [rounds, round_withoutStones options gossips hgoal, hprogress, hmet, hstop]
      split
      case isTrue => rfl
      case isFalse =>
        split
        case isTrue => rfl
        case isFalse => exact ih _ _

end Goal

/-! ## Runs -/

/-- No hint stone is reached at first. -/
theorem withoutStones_of_begin {start? : Option (List String)} {starting : StartingItems}
    {state : SearchState} (hbegin : pathfinder.begin start? starting = .ok state) :
    state.withoutStones = state := by
  have hbegins := begins_of_begin hbegin
  have hclear : ∀ world ∈ state.worlds, world.withoutStones = world := by
    intro world hworld
    rcases List.mem_iff_getElem?.mp hworld with ⟨id, hid⟩
    rcases exists_player hbegins.length hid with ⟨player, hplayer⟩
    rcases hbegins.worlds hplayer with ⟨other, hother, hbegun⟩
    cases hid.symm.trans hother
    rw [WorldState.withoutStones, ← Flags.eq_clear hbegun.gossips]
  rw [SearchState.withoutStones, List.map_congr_left hclear, List.map_id']

/-- Searches that ask for hint stones and that do not fail alike, and where they succeed they
differ in nothing but the hint stones, of which the latter reaches none. -/
theorem run_asking_false (hgoal : pathfinder.goal.IgnoresStones)
    (start? : Option (List String)) :
    pathfinder.run start? (options.asking false) =
      (pathfinder.run start? (options.asking gossips)).map Search.withoutStones := by
  have hvalidate : ∀ gossips,
      pathfinder.validate (options.asking gossips) = pathfinder.validate options := fun _ => rfl
  have hstarting : ∀ gossips,
      (options.asking gossips).starting? = options.starting? := fun _ => rfl
  simp only [run, hvalidate, hstarting]
  cases pathfinder.validate options with
  | error fault => rfl
  | ok _ =>
      cases hbegin : pathfinder.begin start? (options.starting?.getD pathfinder.starting) with
      | error fault => rfl
      | ok state =>
          have hrounds := rounds_withoutStones options gossips hgoal (state.capacity + 1) 0 state
          rw [withoutStones_of_begin pathfinder hbegin] at hrounds
          exact congrArg Except.ok hrounds

end Pathfinder

end SeedLogic
