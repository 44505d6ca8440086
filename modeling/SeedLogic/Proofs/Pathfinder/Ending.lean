import SeedLogic.Proofs.Analysis.Required
import SeedLogic.Proofs.Pathfinder.Balance
import SeedLogic.Proofs.Pathfinder.Looping
import SeedLogic.Proofs.Pathfinder.Spheres
import SeedLogic.Proofs.Pathfinder.Standstill

/-!
# The end of a search

Requirements that speak of what is missing may turn false again, so a search is no walk up
to a least fixpoint.  It ends all the same: a round that changes areas and events only
leaves nothing that can be reached, so that the next one changes nothing
(`halts_of_sphere_eq_nil`).  Hence a search that does not stop at its goal takes one or two
rounds more than it has spheres, and what it leaves is stable (`run_ends_closed`).
-/

namespace SeedLogic

/-- Whatever a reached area of a world leads to by a requirement that holds is reached: areas,
events, locations that are not forbidden and, if they are asked for, hint stones. -/
structure Player.Stable (player : Player) (options : SearchOptions) (id : WorldId)
    (state : WorldState) : Prop where
  exits : ∀ {area number}, player.world.areas[number]? = some area →
    state.areas.has number = true → ∀ gate ∈ area.exits,
      state.opens player.settings gate = true → state.areas.has gate.target = true
  events : ∀ {area number}, player.world.areas[number]? = some area →
    state.areas.has number = true → ∀ gate ∈ area.events,
      state.opens player.settings gate = true → state.events.has gate.target = true
  locations : ∀ {area number}, player.world.areas[number]? = some area →
    state.areas.has number = true → ∀ gate ∈ area.locations,
      state.opens player.settings gate = true →
      (⟨id, gate.target⟩ : Location) ∉ options.forbidden →
      state.locations.has gate.target = true
  gossips : options.gossips = true → ∀ {area number},
    player.world.areas[number]? = some area → state.areas.has number = true →
    ∀ gate ∈ area.gossips, state.opens player.settings gate = true →
      state.gossips.has gate.target = true

/-- In a world without dangling references, what is settled is stable. -/
theorem Player.Settled.stable {player : Player} {options : SearchOptions} {id : WorldId}
    {starting : StartingItems} {listed : List Location} {state : WorldState}
    (hsettled : player.Settled options id state) (hlinked : player.world.Linked)
    (hledger : Pathfinder.WorldLedger starting options listed id player.world state) :
    player.Stable options id state := by
  constructor
  · intro area number harea hreached gate hgate hopens
    apply hsettled.closed.exits (List.mk_mem_zipIdx_iff_getElem?.mpr harea) hreached hgate hopens
    rw [hledger.areas]
    exact hlinked.exits area (List.mem_of_getElem? harea) gate hgate
  · intro area number harea hreached gate hgate hopens
    apply hsettled.closed.events (List.mk_mem_zipIdx_iff_getElem?.mpr harea) hreached hgate hopens
    rw [hledger.events]
    exact hlinked.events area (List.mem_of_getElem? harea) gate hgate
  · intro area number harea hreached gate hgate hopens hallowed
    apply hsettled.locations (List.mk_mem_zipIdx_iff_getElem?.mpr harea) hreached hgate hopens
      hallowed
    rw [hledger.locations]
    exact hlinked.locations area (List.mem_of_getElem? harea) gate hgate
  · intro hasked area number harea hreached gate hgate hopens
    apply hsettled.closed.gossips hasked (List.mk_mem_zipIdx_iff_getElem?.mpr harea) hreached
      hgate hopens
    rw [hledger.gossips]
    exact hlinked.gossips area (List.mem_of_getElem? harea) gate hgate

namespace Pathfinder

/-- The locations of all worlds that are not forbidden. -/
def allowedLocations (pathfinder : Pathfinder) (options : SearchOptions) : List Location :=
  (Analysis.allLocations pathfinder.worlds).filter fun location =>
    location ∉ options.forbidden

/-- A search has come to its end: it has taken one or two rounds more than it has spheres,
of which there are not more than allowed locations, and every world is stable. -/
structure EndsClosed (pathfinder : Pathfinder) (options : SearchOptions) (search : Search) :
    Prop where
  more : search.state.spheres.length + 1 ≤ search.iterations
  fewer : search.iterations ≤ search.state.spheres.length + 2
  spheres : search.state.spheres.length ≤ (pathfinder.allowedLocations options).length
  stable : ∀ {id : WorldId} {player : Player}, pathfinder.players[id]? = some player →
    ∃ world, search.state.worlds[id]? = some world ∧ player.Stable options id world

variable {pathfinder : Pathfinder} {start? : Option (List String)} {starting : StartingItems}
  {options : SearchOptions} {state : SearchState}

/-- A search that does not stop at its goal ends with a round without progress. -/
theorem progress_eq_of_runs {count : Nat} (hruns : pathfinder.Runs start? options state count)
    (hstop : options.stopAtGoal = false) :
    (pathfinder.round options ((pathfinder.round options)^[count] state)).progress =
      ((pathfinder.round options)^[count] state).progress := by
  rcases hruns.halts with ⟨-, hgoal⟩ | hsame
  · rw [hstop] at hgoal
    cases hgoal
  · exact hsame

section Linked

variable (hlinked : ∀ player ∈ pathfinder.players, player.world.Linked)
include hlinked

/-- After a round that finds nothing, the next one makes no progress. -/
theorem halts_of_sphere_eq_nil (hledger : pathfinder.Ledger starting options state)
    (hnil : pathfinder.sphere options state = []) :
    pathfinder.Halts options (pathfinder.round options state) := by
  have hexhausted : pathfinder.Exhausted options (pathfinder.round options state) := by
    apply exhausted_of_gifts_eq_zero hledger
    intro id item
    rw [hnil]
    rfl
  have hworlds := worlds_round_of_exhausted hlinked hledger.round hexhausted
  apply Or.inr
  rw [SearchState.progress, hworlds, SearchState.progress]

/-- The spheres of a search list different locations, none of them forbidden, and at least
one each. -/
theorem length_spheres_le {search : Search} (hrun : pathfinder.run start? options = .ok search) :
    search.state.spheres.length ≤ (pathfinder.allowedLocations options).length := by
  have hledger := ledger_of_run hrun
  have hnonempty : ∀ sphere ∈ search.state.spheres, 1 ≤ sphere.length := fun sphere hsphere =>
    List.length_pos_iff.mpr (ne_nil_of_mem_spheres hrun sphere hsphere)
  have hlisted : search.state.spheres.flatten ⊆ pathfinder.allowedLocations options := by
    intro location hlocation
    apply List.mem_filter.mpr
    constructor
    · exact Analysis.mem_allLocations.mpr (hledger.hasLocation_of_mem hlinked hlocation)
    · exact decide_eq_true (hledger.listed location hlocation).1
  calc search.state.spheres.length
      ≤ (search.state.spheres.map List.length).sum := by
        simpa using List.length_le_sum_of_one_le (search.state.spheres.map List.length)
          (by simpa using hnonempty)
    _ = search.state.spheres.flatten.length := List.length_flatten.symm
    _ ≤ (pathfinder.allowedLocations options).length :=
        ((hledger.nodup hlinked).subperm hlisted).length_le

variable {count : Nat} (hruns : pathfinder.Runs start? options state count)
include hruns

/-- There are no more spheres than rounds before the last one, which finds nothing. -/
theorem length_spheres_le_count (hstop : options.stopAtGoal = false) :
    ((pathfinder.round options)^[count + 1] state).spheres.length ≤ count := by
  have hbegins := begins_of_begin hruns.begins
  have hledger := hbegins.ledger options
  have hprogress := progress_eq_of_runs hruns hstop
  have hnil := sphere_eq_nil hlinked (hledger.iterate count) hprogress
  rw [Function.iterate_succ_apply', spheres_round_eq_self_iff.mpr hnil]
  rcases length_spheres_iterate hlinked hledger hbegins.spheres count with hsame | ⟨hless, -⟩
  · exact hsame.le
  · exact hless.le

/-- At most one round besides the last one finds nothing. -/
theorem count_le_length_spheres :
    count ≤ ((pathfinder.round options)^[count + 1] state).spheres.length + 1 := by
  have hbegins := begins_of_begin hruns.begins
  have hledger := hbegins.ledger options
  -- From the first round without a sphere on, there are no more; it has the number `found`.
  generalize hfound : ((pathfinder.round options)^[count + 1] state).spheres.length = found
  by_contra hmany
  have hnil : pathfinder.sphere options ((pathfinder.round options)^[found] state) = [] := by
    rcases length_spheres_iterate hlinked hledger hbegins.spheres found with hlength | ⟨-, hnil⟩
    · by_contra hsome
      have hgrown : ((pathfinder.round options)^[found + 1] state).spheres.length = found + 1 := by
        rw [Function.iterate_succ_apply', spheres_round, if_neg (mt List.isEmpty_iff.mp hsome),
          List.length_append, hlength]
        rfl
      have hle := (le_iterate options hledger.length
        (by omega : found + 1 ≤ count + 1)).spheres.length_le
      omega
    · exact hnil
  have hhalts := halts_of_sphere_eq_nil hlinked (hledger.iterate found) hnil
  apply hruns.earlier (found + 1)
  · omega
  · rwa [Function.iterate_succ_apply']

/-- The last round leaves every world stable. -/
theorem stable_of_runs (hstop : options.stopAtGoal = false) {id : WorldId} {player : Player}
    (hplayer : pathfinder.players[id]? = some player) :
    ∃ world, ((pathfinder.round options)^[count + 1] state).worlds[id]? = some world ∧
      player.Stable options id world := by
  have hledger := ((begins_of_begin hruns.begins).ledger options).iterate count
  rw [Function.iterate_succ_apply']
  rcases exhausted_round hlinked hledger (progress_eq_of_runs hruns hstop) hplayer with
    ⟨world, hworld, hsettled⟩
  have hbooks := hledger.round.books hplayer hworld
  exact ⟨world, hworld, hsettled.stable (hlinked player (List.mem_of_getElem? hplayer)) hbooks⟩

end Linked

/-- Every search ends, and ends closed.  A world is closed by a loop that comes to an end,
whatever its state, and so is the loop of the rounds of an accepted search.  After a round
that finds nothing, no other finds anything; and a search that does not stop at its goal
has reached all there is to reach. -/
theorem run_ends_closed (hbuilt : ∀ player ∈ pathfinder.players, player.world.Built)
    (haccepts : pathfinder.Accepts start? options) :
    (∀ player ∈ pathfinder.players, ∀ gossips world, ∃ sweeps,
      Loop (player.sweep gossips) WorldState.SameReach world sweeps
        (player.close gossips world)) ∧
    ∃ begun search,
      pathfinder.begin start? (pathfinder.startingOf options) = .ok begun ∧
      pathfinder.run start? options = .ok search ∧
      Loop (pathfinder.round options) (Stops options) begun search.iterations search.state ∧
      (∀ early late, early ≤ late →
        pathfinder.sphere options ((pathfinder.round options)^[early] begun) = [] →
        pathfinder.sphere options ((pathfinder.round options)^[late] begun) = []) ∧
      (options.stopAtGoal = false → pathfinder.EndsClosed options search) := by
  have hlinked : ∀ player ∈ pathfinder.players, player.world.Linked := fun player hplayer =>
    (hbuilt player hplayer).linked
  obtain ⟨begun, count, hruns, hrun⟩ := exists_run_of_accepts haccepts
  have hledger := (begins_of_begin hruns.begins).ledger options
  constructor
  · intro player _ gossips world
    obtain ⟨sweeps, -, hloop⟩ := player.loop_close gossips world
    exact ⟨sweeps, hloop⟩
  · refine ⟨begun, _, hruns.begins, hrun, loop_of_runs hlinked hruns, ?_, fun hstop => ?_⟩
    · intro early late hle hnil
      obtain ⟨more, rfl⟩ := Nat.exists_eq_add_of_le' hle
      rw [Function.iterate_add_apply]
      exact (spheres_iterate_eq_self hlinked (hledger.iterate early) hnil more).1
    · constructor
      · exact Nat.succ_le_succ (length_spheres_le_count hlinked hruns hstop)
      · exact Nat.succ_le_succ (count_le_length_spheres hlinked hruns)
      · exact length_spheres_le hlinked hrun
      · exact stable_of_runs hlinked hruns hstop

/-- In the meadow, a search finds two spheres and takes a third round to its end. -/
theorem run_meadow_ends_closed :
    ∃ search, meadowSolver.run none meadowOptions = .ok search ∧
      meadowSolver.EndsClosed meadowOptions search ∧ search.state.spheres.length = 2 ∧
      search.iterations = 3 := by
  rcases run_ends_closed built_meadowSolver accepts_meadow with
    ⟨-, begun, search, -, hrun, -, -, hclosed⟩
  refine ⟨search, hrun, hclosed rfl, ?_, ?_⟩
  · cases hrun
    rfl
  · cases hrun
    rfl

end Pathfinder

end SeedLogic
