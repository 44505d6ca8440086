import SeedLogic.Proofs.Pathfinder.Granting
import SeedLogic.Proofs.Pathfinder.LeastFixpoint
import SeedLogic.Proofs.Pathfinder.Spheres

/-!
# Spheres are the earliest

A recursive search carries over what it has reached from round to round.  Instead, each
of its rounds could be a search of its own, which collects nothing and starts with the
items that the players have by then (`Foresees`): a round reaches the least set that
has what was reached before and is closed under the rules of such a search
(`isLeast_above_iterate`).  If no count has wrapped around, what was reached before
follows anyway (`isLeast_facts_iterate`), so that each sphere is as early as it can be
(`spheres_earliest`).  If one has, a player may have fewer items than before, and
starting anew is starting with fewer (`spheres_late_hoard`).
-/

namespace SeedLogic

namespace Pathfinder

/-- A search that collects nothing starts with the items that the players have in a state of
another search. -/
structure Foresees (pathfinder : Pathfinder) (options : SearchOptions) (state : SearchState)
    (other : SearchOptions) : Prop where
  gossips : other.gossips = options.gossips
  forbidden : other.forbidden = options.forbidden
  collected : ∀ location, other.collected? location = none
  events : ∀ id, (pathfinder.startingOf other).eventsOf id =
    (pathfinder.startingOf options).eventsOf id
  count : ∀ {id world}, state.worlds[id]? = some world → ∀ item,
    (pathfinder.startingOf other).count id item = world.inventory.count item

variable {pathfinder : Pathfinder} {start? : Option (List String)}
  {options other : SearchOptions} {state : SearchState}

/-- Whatever the items are, one can start with them. -/
theorem foresees_resuming (options : SearchOptions) (state : SearchState) :
    pathfinder.Foresees options state (pathfinder.resuming options state) :=
  ⟨rfl, rfl, fun _ => rfl, fun _ => rfl, count_startingOf_resuming⟩

/-- Nothing is given when nothing is collected. -/
theorem gifts_eq_zero (hcollected : ∀ location, options.collected? location = none)
    (sphere : List Location) (id : WorldId) (item : ItemId) : gifts options sphere id item = 0 := by
  simp [gifts, hcollected]

section Foresees

variable (hforesees : pathfinder.Foresees options state other)
include hforesees

/-- What a round reaches does not depend on what it gives. -/
theorem Foresees.facts_round (hlength : state.worlds.length = pathfinder.players.length) :
    (pathfinder.round other state).facts = (pathfinder.round options state).facts := by
  apply Set.Subset.antisymm
  · rw [facts_round_subset_iff hlength, hforesees.gossips, hforesees.forbidden]
    exact (facts_round_subset_iff hlength).mp (Set.Subset.refl _)
  · rw [facts_round_subset_iff hlength, ← hforesees.gossips, ← hforesees.forbidden]
    exact (facts_round_subset_iff hlength).mp (Set.Subset.refl _)

variable (hledger : pathfinder.Ledger (pathfinder.startingOf options) options state)
include hledger

/-- The books of a search are in order for one that has foreseen its items. -/
theorem Foresees.ledger : pathfinder.Ledger (pathfinder.startingOf other) other state := by
  constructor
  · exact hledger.length
  · intro id player hplayer
    rcases hledger.worlds hplayer with ⟨world, hworld, hbooks⟩
    refine ⟨world, hworld, hbooks.areas, hbooks.locations, hbooks.gossips, hbooks.events,
      hbooks.once, fun item => ?_⟩
    rw [hforesees.count hworld, gifts_eq_zero hforesees.collected, Nat.add_zero,
      Nat.mod_eq_of_lt (hbooks.count_lt item)]
  · rw [hforesees.forbidden]
    exact hledger.listed

/-- Items that players have can be counted. -/
theorem Foresees.countable (reached : Set Fact) : pathfinder.Countable other reached := by
  intro id player hplayer item
  rcases hledger.worlds hplayer with ⟨world, hworld, hbooks⟩
  simp only [known, holding_eq_empty hforesees.collected, Set.ncard_empty, Nat.add_zero,
    hforesees.count hworld]
  exact hbooks.count_lt item

/-- A round stays within facts that are closed under the rules of a search that has foreseen
its items. -/
theorem Foresees.facts_round_subset
    (hpositive : ∀ player ∈ pathfinder.players, player.world.Positive) {reached : Set Fact}
    (hsubset : state.facts ⊆ reached) (hclosed : pathfinder.RuleClosed start? other reached) :
    (pathfinder.round options state).facts ⊆ reached := by
  refine facts_round_subset_of_count hclosed hpositive ?_ hledger.length hsubset ?_
  · rw [hforesees.forbidden]
    exact List.Subset.refl _
  · intro id player world _ hworld item
    rw [← hforesees.count hworld]
    exact Nat.le_add_right _ _

/-- After a round, what is reached is closed under the rules of a search that has foreseen
its items. -/
theorem Foresees.ruleClosed_facts_round
    (hlinked : ∀ player ∈ pathfinder.players, player.world.Linked)
    (hstart : ∀ {id : WorldId} {player : Player} {area : AreaId},
      pathfinder.players[id]? = some player → IsStart start? player.world area →
      Fact.area id area ∈ state.facts)
    (hgiven : ∀ {id : WorldId} {player : Player} {event : EventId},
      pathfinder.players[id]? = some player →
      event ∈ (pathfinder.startingOf options).eventsOf id → Fact.event id event ∈ state.facts) :
    pathfinder.RuleClosed start? other (pathfinder.round options state).facts := by
  have hgrows := facts_subset_of_le (le_round options state hledger.length)
  have hbooks := hforesees.ledger hledger
  rw [← hforesees.facts_round hledger.length] at hgrows ⊢
  refine ruleClosed_facts hlinked hbooks.round ?_ ?_ ?_ (hforesees.countable hledger _)
  · exact fun hplayer harea => hgrows (hstart hplayer harea)
  · intro id player event hplayer hevent
    rw [hforesees.events] at hevent
    exact hgrows (hgiven hplayer hevent)
  · exact exhausted_of_gifts_eq_zero hbooks (gifts_eq_zero hforesees.collected _)

end Foresees

/-! ## Rounds -/

section Linked

variable (hlinked : ∀ player ∈ pathfinder.players, player.world.Linked)
  (hpositive : ∀ player ∈ pathfinder.players, player.world.Positive)
  (haccepts : pathfinder.Accepts start? options)
  (hbegins : pathfinder.Begins start? (pathfinder.startingOf options) state)
include hlinked haccepts hbegins

theorem ruleClosed_facts_iterate {count : Nat}
    (hforesees : pathfinder.Foresees options ((pathfinder.round options)^[count] state) other) :
    pathfinder.RuleClosed start? other ((pathfinder.round options)^[count + 1] state).facts := by
  have hgrows := facts_subset_of_le (le_iterate options hbegins.length (Nat.zero_le count))
  rw [Function.iterate_succ_apply']
  refine hforesees.ruleClosed_facts_round ((hbegins.ledger options).iterate count) hlinked ?_ ?_
  · exact fun hplayer harea => hgrows (hbegins.reaches_start hlinked hplayer harea)
  · exact fun hplayer hevent => hgrows (hbegins.reaches_given haccepts hplayer hevent)

include hpositive

/-- A round reaches the least set that has what was reached before and is closed under the
rules of a search that has foreseen its items. -/
theorem isLeast_above_iterate {count : Nat}
    (hforesees : pathfinder.Foresees options ((pathfinder.round options)^[count] state) other) :
    IsLeast {reached | ((pathfinder.round options)^[count] state).facts ⊆ reached ∧
        pathfinder.RuleClosed start? other reached}
      ((pathfinder.round options)^[count + 1] state).facts := by
  refine ⟨⟨facts_subset_of_le (le_iterate options hbegins.length (Nat.le_succ count)),
    ruleClosed_facts_iterate hlinked haccepts hbegins hforesees⟩, ?_⟩
  rintro reached ⟨hsubset, hclosed⟩
  rw [Function.iterate_succ_apply']
  exact hforesees.facts_round_subset ((hbegins.ledger options).iterate count) hpositive hsubset
    hclosed

variable {last : Nat}
  (hcountable :
    pathfinder.Countable options ((pathfinder.round options)^[last] state).facts)
  (hforesees : pathfinder.Foresees options ((pathfinder.round options)^[last] state) other)
include hcountable hforesees

/-- If no count has wrapped around, a round reaches the least set that is closed under the
rules of a search that has foreseen its items. -/
theorem isLeast_facts_iterate :
    IsLeast {reached | pathfinder.RuleClosed start? other reached}
      ((pathfinder.round options)^[last + 1] state).facts := by
  refine ⟨ruleClosed_facts_iterate hlinked haccepts hbegins hforesees, fun reached hclosed => ?_⟩
  have hledger := hbegins.ledger options
  have hrounds : ∀ count ≤ last + 1,
      ((pathfinder.round options)^[count] state).facts ⊆ reached := by
    intro count
    induction count with
    | zero =>
        refine fun _ => hbegins.facts_subset_of_events hclosed fun id => ?_
        rw [hforesees.events]
        exact List.Subset.refl _
    | succ count ih =>
        intro hle
        rw [Function.iterate_succ_apply']
        refine facts_round_subset_of_count hclosed hpositive ?_ (hledger.iterate count).length
          (ih (Nat.le_of_succ_le hle)) ?_
        · rw [hforesees.forbidden]
          exact List.Subset.refl _
        · -- What the players have at any time is part of what is foreseen.
          intro id player world hplayer hworld item
          rcases (hledger.iterate last).worlds hplayer with ⟨later, hlater, -⟩
          have hlt := hcountable hplayer item
          rw [known_count_eq hlinked (hledger.iterate last)] at hlt
          calc world.inventory.count item
              ≤ later.inventory.count item :=
                hledger.count_le_iterate (Nat.le_of_succ_le_succ hle) hlt hworld hlater
            _ = (pathfinder.startingOf other).count id item := (hforesees.count hlater item).symm
            _ ≤ (pathfinder.known other reached id player).count item := Nat.le_add_right _ _
  exact hrounds (last + 1) (Nat.le_refl _)

end Linked

/-! ## Searches from scratch -/

section Fresh

variable (hlinked : ∀ player ∈ pathfinder.players, player.world.Linked)
  (hledger : pathfinder.Ledger (pathfinder.startingOf options) options state)
include hlinked hledger

/-- A search that starts with what was found, as far as it can be counted, starts with what
the players have. -/
theorem foresees_upFront (hrecursive : options.recursive = true)
    (hcountable : pathfinder.Countable options state.facts) (stop : Bool) :
    pathfinder.Foresees options state
      ((pathfinder.upFront options state.spheres.flatten).stopping stop) := by
  refine ⟨rfl, rfl, fun _ => rfl, fun id => ?_, fun {id world} hworld item => ?_⟩
  · rw [startingOf_stopping, StartingItems.eventsOf, StartingItems.eventsOf, startingOf, upFront,
      Option.getD_some, StartingItems.events_grant]
  · rcases exists_player hledger.length hworld with ⟨player, hplayer⟩
    rw [startingOf_stopping, count_startingOf_upFront hrecursive,
      ← known_count_eq hlinked hledger id player, inventory_count_eq hlinked hledger hplayer hworld,
      Nat.mod_eq_of_lt (hcountable hplayer item)]

/-- A search that collects nothing has what it starts with, if that can be counted. -/
theorem foresees_self (hcollected : ∀ location, options.collected? location = none)
    (hcountable : pathfinder.Countable options state.facts) :
    pathfinder.Foresees options state options := by
  refine ⟨rfl, rfl, hcollected, fun _ => rfl, fun {id world} hworld item => ?_⟩
  rcases exists_player hledger.length hworld with ⟨player, hplayer⟩
  have hknown := known_count_eq hlinked hledger id player item
  rw [gifts_eq_zero hcollected, Nat.add_zero] at hknown
  rw [← hknown, inventory_count_eq hlinked hledger hplayer hworld,
    Nat.mod_eq_of_lt (hcountable hplayer item)]

end Fresh

/-- A search that starts with what was found before a round, and collects nothing,
reaches what the round reaches, if no count has wrapped around. -/
theorem exists_run_upFront (hlinked : ∀ player ∈ pathfinder.players, player.world.Linked)
    (hpositive : ∀ player ∈ pathfinder.players, player.world.Positive)
    (haccepts : pathfinder.Accepts start? options) (hrecursive : options.recursive = true)
    (hbegins : pathfinder.Begins start? (pathfinder.startingOf options) state) {count : Nat}
    (hcountable : pathfinder.Countable options ((pathfinder.round options)^[count] state).facts)
    (stop : Bool) :
    ∃ fresh, pathfinder.run start? ((pathfinder.upFront options
        ((pathfinder.round options)^[count] state).spheres.flatten).stopping stop) = .ok fresh ∧
      fresh.state.facts = ((pathfinder.round options)^[count + 1] state).facts := by
  have hledger := (hbegins.ledger options).iterate count
  have hforesees := foresees_upFront hlinked hledger hrecursive hcountable stop
  have hround := isLeast_facts_iterate hlinked hpositive haccepts hbegins hcountable hforesees
  -- The fresh search gives nothing, and so has foreseen its own items.
  have hfresh := (accepts_upFront haccepts
    ((pathfinder.round options)^[count] state).spheres.flatten).stopping stop
  rcases exists_run_of_accepts hfresh with ⟨first, rounds, hruns, hrun⟩
  have hbegun := begins_of_begin hruns.begins
  have hown := isLeast_facts_iterate hlinked hpositive hfresh hbegun
    (hforesees.countable hledger _)
    (foresees_self hlinked ((hbegun.ledger _).iterate rounds) (fun _ => rfl)
      (hforesees.countable hledger _))
  exact ⟨_, hrun, hown.unique hround⟩

/-- The spheres of a recursive search are as early as they can be, if no player has too many
of any item in the end to be counted in 32 bits.  As many of them as one likes hold what a
fresh search reaches that collects nothing, but starts with the items of all of these
spheres except the last.  And when the search goes to its end, a fresh search that starts
with the items of all spheres reaches the same locations. -/
theorem spheres_earliest
    (hbuilt : ∀ player ∈ pathfinder.players, player.world.Built)
    (hpositive : ∀ player ∈ pathfinder.players, player.world.Positive)
    (haccepts : pathfinder.Accepts start? options) (hrecursive : options.recursive = true) :
    ∃ search, pathfinder.run start? options = .ok search ∧
      (pathfinder.Countable options search.state.facts →
        (∀ count < search.state.spheres.length, ∀ stop, ∃ fresh,
          pathfinder.run start? ((pathfinder.upFront options
            (search.state.spheres.take count).flatten).stopping stop) = .ok fresh ∧
          ∀ location, fresh.state.isReached location = true ↔
            location ∈ (search.state.spheres.take (count + 1)).flatten) ∧
        (options.stopAtGoal = false → ∀ stop, ∃ fresh,
          pathfinder.run start? ((pathfinder.upFront options
            search.state.spheres.flatten).stopping stop) = .ok fresh ∧
          ∀ location, fresh.state.isReached location = true ↔
            location ∈ search.state.spheres.flatten)) := by
  have hlinked : ∀ player ∈ pathfinder.players, player.world.Linked :=
    fun player hplayer => (hbuilt player hplayer).linked
  rcases exists_run_of_accepts haccepts with ⟨state, last, hruns, hrun⟩
  have hbegins := begins_of_begin hruns.begins
  have hledger := hbegins.ledger options
  refine ⟨_, hrun, fun hcountable => ?_⟩
  have hfresh : ∀ count ≤ last, ∀ stop, ∃ fresh, pathfinder.run start? ((pathfinder.upFront options
        ((pathfinder.round options)^[count] state).spheres.flatten).stopping stop) = .ok fresh ∧
      ∀ location, fresh.state.isReached location = true ↔
        location ∈ ((pathfinder.round options)^[count + 1] state).spheres.flatten := by
    intro count hle stop
    have hgrows := facts_subset_of_le
      (le_iterate options hbegins.length (Nat.le_succ_of_le hle))
    rcases exists_run_upFront hlinked hpositive haccepts hrecursive hbegins
      (hcountable.mono hgrows) stop with ⟨fresh, hrun, hfacts⟩
    refine ⟨fresh, hrun, fun location => ?_⟩
    rw [(hledger.iterate (count + 1)).mem_iff hlinked]
    exact Set.ext_iff.mp hfacts (.location location)
  refine ⟨fun count hcount stop => ?_, fun hstop stop => ?_⟩
  · have hmost : ((pathfinder.round options)^[last + 1] state).spheres.length ≤ last + 1 := by
      rcases length_spheres_iterate hlinked hledger hbegins.spheres (last + 1) with
        hlength | ⟨hless, -⟩
      · exact hlength.le
      · exact hless.le
    have hlast : count ≤ last := Nat.le_of_lt_succ (Nat.lt_of_lt_of_le hcount hmost)
    rw [← spheres_iterate_eq_take hlinked hledger hbegins.spheres (Nat.le_succ_of_le hlast),
      ← spheres_iterate_eq_take hlinked hledger hbegins.spheres (Nat.succ_le_succ hlast)]
    exact hfresh count hlast stop
  · have hprogress := hruns.halts.resolve_left fun hgoal => by simp [hstop] at hgoal
    have hnil := sphere_eq_nil hlinked (hledger.iterate last) hprogress
    have hsame : ((pathfinder.round options)^[last + 1] state).spheres.flatten =
        ((pathfinder.round options)^[last] state).spheres.flatten := by
      rw [Function.iterate_succ_apply', flatten_spheres_round, hnil, List.append_nil]
    have hdone := hfresh last (Nat.le_refl _) stop
    rw [← hsame] at hdone
    exact hdone

/-- The sword of the meadow's chest lies in the first sphere, and with it from the start, a
search of the meadow reaches the pool. -/
theorem spheres_earliest_meadow :
    ∃ search fresh, meadowSolver.run none meadowOptions = .ok search ∧
      search.state.spheres = [[⟨0, 0⟩], [⟨0, 1⟩]] ∧
      meadowSolver.run none (meadowSolver.upFront meadowOptions [⟨0, 0⟩]) = .ok fresh ∧
      ∀ location, fresh.state.isReached location = true ↔ location ∈ [⟨0, 0⟩, ⟨0, 1⟩] := by
  have hpositive : ∀ player ∈ meadowSolver.players, player.world.Positive := by decide
  have hspheres : ∀ search, meadowSolver.run none meadowOptions = .ok search →
      search.state.spheres = [[⟨0, 0⟩], [⟨0, 1⟩]] := by
    intro search hrun
    cases hrun
    rfl
  rcases spheres_earliest built_meadowSolver hpositive accepts_meadow rfl with
    ⟨search, hrun, hearliest⟩
  have hlist := hspheres search hrun
  have hsecond := (hearliest (countable_meadow _)).1
  rw [hlist] at hsecond
  rcases hsecond 1 (by decide) false with ⟨fresh, hfresh, hreached⟩
  exact ⟨search, fresh, hrun, hlist, hfresh, hreached⟩

/-! ## Too many swords -/

/-- A player of the meadow with as many swords as can be counted. -/
def hoardSolver : Pathfinder :=
  { meadowSolver with starting := ⟨[[(0, 4294967295)]], [[]]⟩ }

theorem accepts_hoard : hoardSolver.Accepts none meadowOptions :=
  accepts_iff.mpr ⟨rfl, _, rfl⟩

/-- With so many swords, the player gets at the chest and the pool at once.  But whoever starts
with the swords that lie there as well starts with a single one, which is not enough for the
pool. -/
theorem spheres_late_hoard :
    (∀ player ∈ hoardSolver.players, player.world.Built ∧ player.world.Positive) ∧
    hoardSolver.Accepts none meadowOptions ∧ meadowOptions.recursive = true ∧
    meadowOptions.stopAtGoal = false ∧
    ∃ search fresh, hoardSolver.run none meadowOptions = .ok search ∧
      search.state.spheres = [[⟨0, 1⟩, ⟨0, 0⟩]] ∧
      hoardSolver.run none (hoardSolver.upFront meadowOptions [⟨0, 1⟩, ⟨0, 0⟩]) = .ok fresh ∧
      fresh.state.isReached ⟨0, 0⟩ = true ∧ fresh.state.isReached ⟨0, 1⟩ = false := by
  have hpositive : ∀ player ∈ hoardSolver.players, player.world.Positive := by decide
  refine ⟨fun player hplayer => ⟨built_meadowSolver player hplayer, hpositive player hplayer⟩,
    accepts_hoard, rfl, rfl, _, _, rfl, rfl, rfl, rfl, rfl⟩

end Pathfinder

end SeedLogic
