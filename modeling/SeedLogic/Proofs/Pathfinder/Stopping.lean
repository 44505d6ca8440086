import SeedLogic.Proofs.Pathfinder.Ledger

/-!
# Stopping at the goal

A search that stops at its goal goes through the rounds of the search to its end and
leaves some of them out.  What the two reach is ordered (`Runs.le_of_stop`), they meet
the goal alike (`Runs.goal_eq`), and if they miss it they are the same
(`Runs.count_eq_of_missed`).
-/

namespace SeedLogic

/-- The same search, up to its goal or to its end. -/
def SearchOptions.stopping (options : SearchOptions) (stop : Bool) : SearchOptions :=
  { options with stopAtGoal := stop }

namespace Pathfinder

variable {pathfinder : Pathfinder} {start? : Option (List String)} {options : SearchOptions}
  {state : SearchState}

@[simp]
theorem round_stopping (options : SearchOptions) (stop : Bool) :
    pathfinder.round (options.stopping stop) = pathfinder.round options :=
  rfl

@[simp]
theorem validate_stopping (options : SearchOptions) (stop : Bool) :
    pathfinder.validate (options.stopping stop) = pathfinder.validate options :=
  rfl

@[simp]
theorem startingOf_stopping (options : SearchOptions) (stop : Bool) :
    pathfinder.startingOf (options.stopping stop) = pathfinder.startingOf options :=
  rfl

theorem Accepts.stopping (haccepts : pathfinder.Accepts start? options) (stop : Bool) :
    pathfinder.Accepts start? (options.stopping stop) :=
  ⟨haccepts.placement, haccepts.forbidden, haccepts.items, haccepts.events, haccepts.names,
    haccepts.start⟩

/-- The number of rounds of a search to its end is no less. -/
theorem Runs.count_le {stopped full : Nat}
    (hstopped : pathfinder.Runs start? (options.stopping true) state stopped)
    (hfull : pathfinder.Runs start? (options.stopping false) state full) : stopped ≤ full := by
  by_contra hlate
  apply hstopped.earlier full (Nat.lt_of_not_le hlate)
  rcases hfull.halts with ⟨-, hstop⟩ | hprogress
  · cases hstop
  · exact .inr hprogress

/-- A search that stops without the goal goes to the end. -/
theorem Runs.count_eq_of_missed {stopped full : Nat}
    (hstopped : pathfinder.Runs start? (options.stopping true) state stopped)
    (hfull : pathfinder.Runs start? (options.stopping false) state full)
    (hmissed : ((pathfinder.round options)^[stopped + 1] state).goal = false) :
    stopped = full := by
  apply Nat.le_antisymm (hstopped.count_le hfull)
  by_contra hearly
  apply hfull.earlier stopped (Nat.lt_of_not_le hearly)
  rcases hstopped.halts with ⟨hgoal, -⟩ | hprogress
  · rw [round_stopping, ← Function.iterate_succ_apply' (pathfinder.round options), hmissed] at hgoal
    cases hgoal
  · exact .inr hprogress

/-- Stopping at the goal leaves something out and changes nothing else. -/
theorem Runs.le_of_stop {stopped full : Nat}
    (hstopped : pathfinder.Runs start? (options.stopping true) state stopped)
    (hfull : pathfinder.Runs start? (options.stopping false) state full) :
    (pathfinder.round options)^[stopped + 1] state ≤
      (pathfinder.round options)^[full + 1] state :=
  le_iterate options (begins_of_begin hstopped.begins).length
    (Nat.succ_le_succ (hstopped.count_le hfull))

/-- The goal is met by stopping at it if it is met at all. -/
theorem Runs.goal_eq {stopped full : Nat}
    (hstopped : pathfinder.Runs start? (options.stopping true) state stopped)
    (hfull : pathfinder.Runs start? (options.stopping false) state full) :
    ((pathfinder.round options)^[stopped + 1] state).goal =
      ((pathfinder.round options)^[full + 1] state).goal := by
  cases hgoal : ((pathfinder.round options)^[stopped + 1] state).goal with
  | true => exact ((hstopped.le_of_stop hfull).goal hgoal).symm
  | false => rw [← hstopped.count_eq_of_missed hfull hgoal, hgoal]

/-- If a search succeeds, so does the one up to the goal and the one to the end, and
they are ordered and meet the goal alike. -/
theorem exists_stopped_and_full {search : Search} {stop : Bool}
    (hrun : pathfinder.run start? (options.stopping stop) = .ok search) :
    ∃ stopped full, pathfinder.run start? (options.stopping true) = .ok stopped ∧
      pathfinder.run start? (options.stopping false) = .ok full ∧
      stopped.state ≤ full.state ∧ stopped.state.goal = full.state.goal ∧
      (stopped.state.goal = false → stopped = full) := by
  rcases run_eq_ok_iff.mp hrun with ⟨hvalid, state, count, hruns, -⟩
  rcases exists_runs (options.stopping true) hruns.begins with ⟨stopped, hstopped, -⟩
  rcases exists_runs (options.stopping false) hruns.begins with ⟨full, hfull, -⟩
  refine ⟨_, _, run_eq_ok_iff.mpr ⟨hvalid, state, stopped, hstopped, rfl⟩,
    run_eq_ok_iff.mpr ⟨hvalid, state, full, hfull, rfl⟩, hstopped.le_of_stop hfull,
    hstopped.goal_eq hfull, fun hmissed => ?_⟩
  rw [hstopped.count_eq_of_missed hfull hmissed]
  rfl

end Pathfinder

end SeedLogic
