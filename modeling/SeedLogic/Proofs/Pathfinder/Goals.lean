import SeedLogic.Proofs.Pathfinder.LeastFixpoint
import SeedLogic.Proofs.Pathfinder.Stopping

/-!
# Goals of events

A search remembers whether its goal was met after any of its rounds.  A goal of events
that is met stays met, so that what is remembered is whether the events are obtained in
the end (`goal_iff_of_run`).  Whatever the goal is, to stop at it is to leave the search to
its end early, and only if the goal is met (`run_stopping`).
-/

namespace SeedLogic

theorem SearchState.hasEvent_iff {state : SearchState} {id : WorldId} {event : EventId} :
    state.hasEvent id event = true ↔ Fact.event id event ∈ state.facts := by
  change _ ↔ ∃ world, state.worlds[id]? = some world ∧ world.events.has event = true
  rw [hasEvent]
  cases state.worlds[id]? <;> simp

/-- The goal of events is met when they are all obtained. -/
theorem Goal.events_iff {events : List (WorldId × EventId)} {state : SearchState} :
    Goal.events events state = true ↔
      ∀ entry ∈ events, Fact.event entry.1 entry.2 ∈ state.facts := by
  simp only [Goal.events, List.all_eq_true, SearchState.hasEvent_iff]

/-- A goal of events that is met is met where more is reached. -/
theorem Goal.events_mono {events : List (WorldId × EventId)} {fewer more : SearchState}
    (hsubset : fewer.facts ⊆ more.facts) (hmet : Goal.events events fewer = true) :
    Goal.events events more = true :=
  Goal.events_iff.mpr fun entry hentry => hsubset (Goal.events_iff.mp hmet entry hentry)

namespace Pathfinder

variable {pathfinder : Pathfinder} {start? : Option (List String)} {options : SearchOptions}
  {state : SearchState} {events : List (WorldId × EventId)}

section Goal

variable (hgoal : pathfinder.goal = .events events)
include hgoal

/-- After a round, the goal is met if it was met before or if it is now. -/
theorem goal_round (state : SearchState) :
    (pathfinder.round options state).goal =
      (state.goal || Goal.events events (pathfinder.round options state)) := by
  simp only [round, hgoal]
  rfl

/-- After any number of rounds but none, the goal is met if its events are obtained. -/
theorem goal_iterate (hlength : state.worlds.length = pathfinder.players.length)
    (hunmet : state.goal = false) (count : Nat) :
    ((pathfinder.round options)^[count + 1] state).goal =
      Goal.events events ((pathfinder.round options)^[count + 1] state) := by
  induction count with
  | zero => rw [Function.iterate_one, goal_round hgoal, hunmet, Bool.false_or]
  | succ count ih =>
      have hgrows := le_round options ((pathfinder.round options)^[count + 1] state)
        (length_worlds_iterate hlength (count + 1))
      rw [Function.iterate_succ_apply', goal_round hgoal, ih]
      exact Bool.or_eq_right_iff_imp.mpr (Goal.events_mono (facts_subset_of_le hgrows))

/-- A search meets a goal of events if it has obtained them in the end. -/
theorem goal_iff_of_run {search : Search} (hrun : pathfinder.run start? options = .ok search) :
    search.state.goal = true ↔
      ∀ entry ∈ events, Fact.event entry.1 entry.2 ∈ search.state.facts := by
  rcases run_eq_ok_iff.mp hrun with ⟨-, state, count, hruns, rfl⟩
  have hbegins := begins_of_begin hruns.begins
  rw [goal_iterate hgoal hbegins.length hbegins.goal, Goal.events_iff]

end Goal

end Pathfinder

/-! ## Stopping at the goal -/

/-- Every area, event, location and hint stone of a world that is reached before is
reached after. -/
structure WorldState.KeptBy (before after : WorldState) : Prop where
  areas : ∀ area, before.areas.has area = true → after.areas.has area = true
  events : ∀ event, before.events.has event = true → after.events.has event = true
  locations : ∀ check, before.locations.has check = true → after.locations.has check = true
  gossips : ∀ gossip, before.gossips.has gossip = true → after.gossips.has gossip = true

theorem WorldState.keptBy_of_le {before after : WorldState} (hle : before ≤ after) :
    before.KeptBy after :=
  ⟨fun _ => hle.areas.has, fun _ => hle.events.has, fun _ => hle.locations.has,
    fun _ => hle.gossips.has⟩

/-- A search `stopped` leaves a search `full` early, if at all: it has the first of its
spheres and reaches nothing else, and it only leaves once the goal is met. -/
structure Search.Leaves (stopped full : Search) : Prop where
  goal : stopped.state.goal = full.state.goal
  spheres : stopped.state.spheres <+: full.state.spheres
  worlds : List.Forall₂ WorldState.KeptBy stopped.state.worlds full.state.worlds
  missed : stopped.state.goal = false → stopped = full

namespace Pathfinder

variable (pathfinder : Pathfinder) (start? : Option (List String)) (options : SearchOptions)

/-- Whether a search fails, and by which fault, does not depend on where it stops. -/
theorem run_stopping_eq_error_iff {fault : LogicError} (stop other : Bool) :
    pathfinder.run start? (options.stopping stop) = .error fault ↔
      pathfinder.run start? (options.stopping other) = .error fault := by
  simp only [run, validate_stopping]
  cases pathfinder.validate options with
  | error found => exact Iff.rfl
  | ok _ =>
      change (pathfinder.begin start? (pathfinder.startingOf options) >>= _) = _ ↔
        (pathfinder.begin start? (pathfinder.startingOf options) >>= _) = _
      cases pathfinder.begin start? (pathfinder.startingOf options) with
      | error found => exact Iff.rfl
      | ok state => exact ⟨nofun, nofun⟩

/-- Stopping at the goal is leaving early.  The search that stops and the one to its end
fail alike; and if they succeed, the one leaves the other early, and a goal of events is
met by either if the one to its end has obtained the events. -/
theorem run_stopping :
    (∃ fault, pathfinder.run start? (options.stopping true) = .error fault ∧
      pathfinder.run start? (options.stopping false) = .error fault) ∨
    ∃ stopped full, pathfinder.run start? (options.stopping true) = .ok stopped ∧
      pathfinder.run start? (options.stopping false) = .ok full ∧ stopped.Leaves full ∧
      ∀ events, pathfinder.goal = .events events →
        (stopped.state.goal = true ↔
          ∀ entry ∈ events, full.state.hasEvent entry.1 entry.2 = true) ∧
        (full.state.goal = true ↔
          ∀ entry ∈ events, full.state.hasEvent entry.1 entry.2 = true) := by
  cases hrun : pathfinder.run start? (options.stopping true) with
  | error fault =>
      exact .inl ⟨fault, rfl, (run_stopping_eq_error_iff _ _ _ true false).mp hrun⟩
  | ok search =>
      rcases exists_stopped_and_full hrun with
        ⟨stopped, full, hstopped, hfull, hle, hgoal, hmissed⟩
      rw [hrun] at hstopped
      refine .inr ⟨stopped, full, hstopped, hfull, ?_, fun events hevents => ?_⟩
      · exact ⟨hgoal, hle.spheres, hle.worlds.imp fun _ _ => WorldState.keptBy_of_le, hmissed⟩
      · have hobtained := goal_iff_of_run hevents hfull
        simp only [← SearchState.hasEvent_iff] at hobtained
        exact ⟨hgoal ▸ hobtained, hobtained⟩

/-- In the meadow, a search for the open cave does not wait for what lies in it. -/
theorem leaves_meadow :
    ∃ stopped full,
      (meadowSolver.withGoal (.events [(0, 0)])).run none (meadowOptions.stopping true) =
        .ok stopped ∧
      (meadowSolver.withGoal (.events [(0, 0)])).run none (meadowOptions.stopping false) =
        .ok full ∧
      stopped.Leaves full ∧ stopped.state.goal = true ∧ full.state.hasEvent 0 0 = true ∧
      stopped.state.spheres = [[⟨0, 0⟩]] ∧ full.state.spheres = [[⟨0, 0⟩], [⟨0, 1⟩]] := by
  rcases run_stopping (meadowSolver.withGoal (.events [(0, 0)])) none meadowOptions with
    ⟨fault, hstopped, -⟩ | ⟨stopped, full, hstopped, hfull, hleaves, hevents⟩
  · cases hstopped
  · refine ⟨stopped, full, hstopped, hfull, hleaves, ?_, ?_, ?_, ?_⟩
    · cases hstopped
      rfl
    · cases hfull
      rfl
    · cases hstopped
      rfl
    · cases hfull
      rfl

end Pathfinder

end SeedLogic
