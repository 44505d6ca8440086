import Mathlib.Data.List.Sigma
import SeedLogic.Proofs.Pathfinder.Ledger

/-!
# The books of a search balance

The spheres of a search partition the reached locations: no sphere is empty, and
together they list every reached location once (`Ledger.perm_reachedLocations`).  So
what a player has in the end can be counted from the reached locations alone
(`run_balances`).
-/

namespace SeedLogic

/-! ## Listing the reached locations -/

namespace SearchState

theorem nodup_reachedIn (entry : WorldState × WorldId) : (reachedIn entry).Nodup := by
  have hchecks : entry.1.locations.toList.Nodup := List.nodup_range.filter _
  exact hchecks.map fun _ _ heq => congrArg Location.check heq

theorem nodup_reachedLocations (state : SearchState) : state.reachedLocations.Nodup := by
  rw [reachedLocations, List.nodup_flatMap]
  constructor
  · exact fun entry _ => nodup_reachedIn entry
  · have hids := List.pairwise_map.mp (List.nodup_zipIdx_map_snd state.worlds)
    refine hids.imp fun {left right} hne location hleft hright => hne ?_
    rcases List.mem_map.mp hleft with ⟨check, -, rfl⟩
    rcases List.mem_map.mp hright with ⟨other, -, heq⟩
    exact (congrArg Location.world heq).symm

end SearchState

namespace Pathfinder

variable {pathfinder : Pathfinder} {start? : Option (List String)} {starting : StartingItems}
  {options : SearchOptions} {state : SearchState}

/-! ## Spheres -/

/-- A round records no empty sphere. -/
theorem ne_nil_of_mem_spheres_round (hspheres : ∀ sphere ∈ state.spheres, sphere ≠ [])
    {sphere : List Location} (hsphere : sphere ∈ (pathfinder.round options state).spheres) :
    sphere ≠ [] := by
  rw [spheres_round] at hsphere
  split at hsphere
  case isTrue => exact hspheres sphere hsphere
  case isFalse hfound =>
    rcases List.mem_append.mp hsphere with hold | hnew
    · exact hspheres sphere hold
    · rw [List.mem_singleton.mp hnew]
      exact fun hnil => hfound (List.isEmpty_iff.mpr hnil)

theorem ne_nil_of_mem_spheres_iterate (hspheres : ∀ sphere ∈ state.spheres, sphere ≠ [])
    (count : Nat) :
    ∀ sphere ∈ ((pathfinder.round options)^[count] state).spheres, sphere ≠ [] := by
  induction count with
  | zero => exact hspheres
  | succ count ih =>
      rw [Function.iterate_succ_apply']
      exact fun sphere hsphere => ne_nil_of_mem_spheres_round ih hsphere

/-- No sphere of a search is empty. -/
theorem ne_nil_of_mem_spheres {search : Search}
    (hrun : pathfinder.run start? options = .ok search) :
    ∀ sphere ∈ search.state.spheres, sphere ≠ [] := by
  rcases run_eq_ok_iff.mp hrun with ⟨-, state, count, hruns, rfl⟩
  apply ne_nil_of_mem_spheres_iterate
  rw [(begins_of_begin hruns.begins).spheres]
  exact fun sphere hsphere => absurd hsphere List.not_mem_nil

/-! ## Items -/

/-- A search that is not recursive gives nothing; a recursive one gives what lies at the
listed locations. -/
theorem gifts_eq (options : SearchOptions) (listed : List Location) (id : WorldId)
    (item : ItemId) : gifts options listed id item =
      if options.recursive then
        listed.countP fun location => options.placed? location = some ⟨id, item⟩
      else 0 := by
  cases hrecursive : options.recursive with
  | false => simp [gifts, SearchOptions.collected?_eq, hrecursive]
  | true => simp [gifts, SearchOptions.collected?_eq, hrecursive]

section Linked

variable (hlinked : ∀ player ∈ pathfinder.players, player.world.Linked)
include hlinked

/-- The spheres list the reached locations, each of them once. -/
theorem Ledger.perm_reachedLocations (hledger : pathfinder.Ledger starting options state) :
    state.spheres.flatten.Perm state.reachedLocations := by
  rw [List.perm_ext_iff_of_nodup (hledger.nodup hlinked) state.nodup_reachedLocations]
  intro location
  rw [hledger.mem_iff hlinked, SearchState.mem_reachedLocations]

/-- After every search that succeeds, the spheres are not empty, list every reached
location once and nothing else, and nothing forbidden; and every player has the starting
items and, if the search is recursive, one item for each reached location at which it
lies for this player.  This sum is kept in 32 bits, and so it is the count whenever it
fits.  Built worlds are linked (`World.Built.linked`). -/
theorem run_balances {search : Search} (hrun : pathfinder.run start? options = .ok search) :
    (∀ sphere ∈ search.state.spheres, sphere ≠ []) ∧
    search.state.spheres.flatten.Nodup ∧
    (∀ location, location ∈ search.state.spheres.flatten ↔
      search.state.isReached location = true) ∧
    (∀ location ∈ search.state.spheres.flatten, location ∉ options.forbidden) ∧
    search.state.worlds.length = pathfinder.players.length ∧
    ∀ id world, search.state.worlds[id]? = some world → ∀ item sum,
      sum = (pathfinder.startingOf options).count id item +
        (if options.recursive then
          search.state.reachedLocations.countP fun location =>
            options.placed? location = some ⟨id, item⟩
        else 0) →
      world.inventory.count item = sum % 2 ^ 32 ∧
        (sum < 2 ^ 32 → world.inventory.count item = sum) := by
  have hledger := ledger_of_run hrun
  refine ⟨ne_nil_of_mem_spheres hrun, hledger.nodup hlinked, fun _ => hledger.mem_iff hlinked,
    fun location hlocation => (hledger.listed location hlocation).1, hledger.length, ?_⟩
  rintro id world hworld item sum rfl
  rcases hledger.exists_books hworld with ⟨player, -, hbooks⟩
  have hcount := hbooks.count item
  rw [gifts_eq, (hledger.perm_reachedLocations hlinked).countP_eq] at hcount
  exact ⟨hcount, fun hfits => hcount.trans (Nat.mod_eq_of_lt hfits)⟩

end Linked

/-! ## Two players who trade

Each of two players in the meadow finds the other's sword in the chest. -/

/-- Two players in the meadow, who start with nothing. -/
def tradeSolver : Pathfinder where
  players := [⟨.meadow, ⟨#[false]⟩⟩, ⟨.meadow, ⟨#[false]⟩⟩]
  starting := .none 2
  goal := .never

/-- A search in which the swords in the chests are the other player's. -/
def tradeOptions : SearchOptions :=
  { SearchOptions.plain with
    items? := some (Placement.empty.insertAll [(⟨0, 0⟩, ⟨1, 0⟩), (⟨1, 0⟩, ⟨0, 0⟩)])
    recursive := true }

theorem run_balances_trade :
    ∃ search, tradeSolver.run none tradeOptions = .ok search ∧
      search.state.spheres = [[⟨0, 0⟩, ⟨1, 0⟩]] ∧ search.state.spheres.flatten.Nodup ∧
      ∀ id < 2, ∀ world, search.state.worlds[id]? = some world → world.inventory.count 0 = 1 := by
  have hlinked : ∀ player ∈ tradeSolver.players, player.world.Linked := by
    simpa [tradeSolver] using World.built_meadow.linked
  obtain ⟨search, hrun, hspheres, hreached⟩ : ∃ search,
      tradeSolver.run none tradeOptions = .ok search ∧
        search.state.spheres = [[⟨0, 0⟩, ⟨1, 0⟩]] ∧
        search.state.reachedLocations = [⟨0, 0⟩, ⟨1, 0⟩] :=
    ⟨_, rfl, rfl, rfl⟩
  rcases run_balances hlinked hrun with ⟨-, hnodup, -, -, -, hcount⟩
  refine ⟨search, hrun, hspheres, hnodup, fun id hid world hworld => ?_⟩
  refine (hcount id world hworld 0 1 ?_).2 (by decide)
  rw [hreached]
  obtain rfl | rfl : id = 0 ∨ id = 1 := by omega
  · rfl
  · rfl

end Pathfinder

end SeedLogic
