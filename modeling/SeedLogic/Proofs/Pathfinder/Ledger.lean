import Mathlib.Data.List.Nodup
import Mathlib.Data.Set.Card
import SeedLogic.Proofs.Pathfinder.Beginning

/-!
# The ledger of a search

The spheres of a search are its ledger.  They list a location as often as it is
reached, and every player has the starting items and what was collected at the
locations listed, as far as can be counted (`Ledger`).  Both are so at the beginning,
and a round keeps them so (`Ledger.round`).
-/

namespace SeedLogic

namespace Pathfinder

/-! ## The ledger of one world -/

/-- A world of a search agrees with the locations listed so far. -/
structure WorldLedger (starting : StartingItems) (options : SearchOptions)
    (listed : List Location) (id : WorldId) (world : World) (state : WorldState) : Prop where
  areas : state.areas.size = world.areas.length
  locations : state.locations.size = world.checks.length
  gossips : state.gossips.size = world.gossips.length
  events : state.events.size = world.eventCount
  once : ∀ check < world.checks.length,
    listed.count ⟨id, check⟩ = (state.locations.has check).toNat
  count : ∀ item, state.inventory.count item =
    (starting.count id item + gifts options listed id item) % Inventory.modulus

theorem gifts_append (options : SearchOptions) (left right : List Location) (id : WorldId)
    (item : ItemId) : gifts options (left ++ right) id item =
      gifts options left id item + gifts options right id item :=
  List.countP_append

/-- What a player has can be counted. -/
theorem WorldLedger.count_lt {starting : StartingItems} {options : SearchOptions}
    {listed : List Location} {id : WorldId} {world : World} {state : WorldState}
    (hledger : WorldLedger starting options listed id world state) (item : ItemId) :
    state.inventory.count item < Inventory.modulus := by
  rw [hledger.count]
  exact Nat.mod_lt _ Inventory.modulus_pos

/-- The ledger of a world goes on when the world is closed and searched and receives
its items. -/
theorem WorldLedger.advance {starting : StartingItems} {options : SearchOptions}
    {listed sphere : List Location} {id : WorldId} {player : Player}
    {before closed after : WorldState} {found : WorldState × List Location}
    (hledger : WorldLedger starting options listed id player.world before)
    (hmoves : player.Moves before closed)
    (hfound : player.Found id options.forbidden closed found)
    (hsphere : ∀ check, sphere.count ⟨id, check⟩ = found.2.count ⟨id, check⟩)
    (hreceives : WorldState.Receives (gifts options sphere id) found.1 after) :
    WorldLedger starting options (listed ++ sphere) id player.world after := by
  have hgrowth := WorldState.le_trans hmoves.le (WorldState.le_trans hfound.le hreceives.le)
  have hlocations : after.locations = found.1.locations := by rw [hreceives.frame]
  have hinventory : found.1.inventory = before.inventory := by
    rw [hfound.frame]
    exact hmoves.frame.2
  constructor
  · exact hgrowth.areas.size.symm.trans hledger.areas
  · exact hgrowth.locations.size.symm.trans hledger.locations
  · exact hgrowth.gossips.size.symm.trans hledger.gossips
  · exact hgrowth.events.size.symm.trans hledger.events
  · intro check hlt
    have hsize : check < closed.locations.size := by
      rw [hmoves.frame.1, hledger.locations]
      exact hlt
    rw [List.count_append, hledger.once check hlt, hsphere, hlocations,
      ← hfound.count check hsize, hmoves.frame.1]
  · intro item
    have hcount := hreceives.count item
    rw [hinventory] at hcount
    rw [hcount (hledger.count_lt item), hledger.count, Nat.mod_add_mod, gifts_append,
      Nat.add_assoc]

/-! ## The ledger of all worlds -/

/-- The worlds of a search agree with its spheres, which list no forbidden location
and only locations that an area of some world leads to. -/
structure Ledger (pathfinder : Pathfinder) (starting : StartingItems) (options : SearchOptions)
    (state : SearchState) : Prop where
  length : state.worlds.length = pathfinder.players.length
  worlds : ∀ {id player}, pathfinder.players[id]? = some player →
    ∃ world, state.worlds[id]? = some world ∧
      WorldLedger starting options state.spheres.flatten id player.world world
  listed : ∀ location ∈ state.spheres.flatten, location ∉ options.forbidden ∧
    ∃ player, pathfinder.players[location.world]? = some player ∧
      ∃ area ∈ player.world.areas, ∃ gate ∈ area.locations, gate.target = location.check

variable {pathfinder : Pathfinder} {start? : Option (List String)} {starting : StartingItems}
  {options : SearchOptions} {state : SearchState}

theorem Ledger.books (hledger : pathfinder.Ledger starting options state) {id : WorldId}
    {player : Player} {world : WorldState} (hplayer : pathfinder.players[id]? = some player)
    (hworld : state.worlds[id]? = some world) :
    WorldLedger starting options state.spheres.flatten id player.world world := by
  rcases hledger.worlds hplayer with ⟨other, hother, hbooks⟩
  cases hworld.symm.trans hother
  exact hbooks

theorem Ledger.exists_books (hledger : pathfinder.Ledger starting options state) {id : WorldId}
    {world : WorldState} (hworld : state.worlds[id]? = some world) :
    ∃ player, pathfinder.players[id]? = some player ∧
      WorldLedger starting options state.spheres.flatten id player.world world := by
  rcases exists_player hledger.length hworld with ⟨player, hplayer⟩
  exact ⟨player, hplayer, hledger.books hplayer hworld⟩

theorem Begins.ledger (options : SearchOptions)
    (hbegins : pathfinder.Begins start? starting state) :
    pathfinder.Ledger starting options state := by
  constructor
  · exact hbegins.length
  · intro id player hplayer
    rcases hbegins.worlds hplayer with ⟨world, hworld, hbegun⟩
    rcases hbegun.sizes with ⟨hareas, hlocations, hgossips, hevents⟩
    refine ⟨world, hworld, hareas, hlocations, hgossips, hevents, ?_, ?_⟩
    · intro check _
      rw [hbegins.spheres, hbegun.locations]
      rfl
    · intro item
      rw [hbegins.spheres, hbegun.count]
      rfl
  · intro location hlocation
    rw [hbegins.spheres] at hlocation
    cases hlocation

/-- A round keeps the ledger. -/
theorem Ledger.round (hledger : pathfinder.Ledger starting options state) :
    pathfinder.Ledger starting options (pathfinder.round options state) := by
  constructor
  · exact length_worlds_round state hledger.length
  · intro id player hplayer
    rcases hledger.worlds hplayer with ⟨world, hworld, hbooks⟩
    rcases round_world options hplayer hworld with ⟨after, hafter, hreceives⟩
    refine ⟨after, hafter, ?_⟩
    rw [flatten_spheres_round]
    exact hbooks.advance (player.moves_close options.gossips world)
      (player.found_search id options.forbidden _) (count_sphere hplayer hworld) hreceives
  · intro location hlocation
    rw [flatten_spheres_round] at hlocation
    rcases List.mem_append.mp hlocation with hold | hnew
    · exact hledger.listed location hold
    · rcases mem_sphere.mp hnew with ⟨player, world, hplayer, hworld, hfound⟩
      rcases (player.found_search location.world options.forbidden _).source location hfound with
        ⟨-, hallowed, entry, hentry, -, gate, hgate, htarget, -⟩
      exact ⟨hallowed, player, hplayer, entry.1, List.fst_mem_of_mem_zipIdx hentry, gate, hgate,
        htarget⟩

theorem Ledger.iterate (hledger : pathfinder.Ledger starting options state) (count : Nat) :
    pathfinder.Ledger starting options ((pathfinder.round options)^[count] state) := by
  induction count with
  | zero => exact hledger
  | succ count ih =>
      rw [Function.iterate_succ_apply']
      exact ih.round

/-- If no count has wrapped around by then, no player has had more of an item before. -/
theorem Ledger.count_le_iterate (hledger : pathfinder.Ledger starting options state)
    {early late : Nat} (hle : early ≤ late) {id : WorldId} {item : ItemId}
    (hlt : starting.count id item + gifts options
      ((pathfinder.round options)^[late] state).spheres.flatten id item < Inventory.modulus)
    {before after : WorldState}
    (hbefore : ((pathfinder.round options)^[early] state).worlds[id]? = some before)
    (hafter : ((pathfinder.round options)^[late] state).worlds[id]? = some after) :
    before.inventory.count item ≤ after.inventory.count item := by
  rcases (hledger.iterate early).exists_books hbefore with ⟨player, hplayer, hearly⟩
  have hlate := (hledger.iterate late).books hplayer hafter
  have hspheres := (le_iterate options hledger.length hle).spheres
  have hgifts : gifts options ((pathfinder.round options)^[early] state).spheres.flatten id item ≤
      gifts options ((pathfinder.round options)^[late] state).spheres.flatten id item :=
    hspheres.sublist.flatten.countP_le
  calc before.inventory.count item
      = (starting.count id item + gifts options
          ((pathfinder.round options)^[early] state).spheres.flatten id item) %
            Inventory.modulus := hearly.count item
    _ ≤ starting.count id item + gifts options
          ((pathfinder.round options)^[early] state).spheres.flatten id item := Nat.mod_le _ _
    _ ≤ starting.count id item + gifts options
          ((pathfinder.round options)^[late] state).spheres.flatten id item :=
        Nat.add_le_add_left hgifts _
    _ = (starting.count id item + gifts options
          ((pathfinder.round options)^[late] state).spheres.flatten id item) %
            Inventory.modulus := (Nat.mod_eq_of_lt hlt).symm
    _ = after.inventory.count item := (hlate.count item).symm

/-- Every search that succeeds has kept its ledger. -/
theorem ledger_of_run {search : Search} (hrun : pathfinder.run start? options = .ok search) :
    pathfinder.Ledger (pathfinder.startingOf options) options search.state := by
  rcases run_eq_ok_iff.mp hrun with ⟨-, state, count, hruns, rfl⟩
  exact ((begins_of_begin hruns.begins).ledger options).iterate (count + 1)

/-! ## Reading the ledger -/

/-- A location that exists is listed once if it is reached, and otherwise not. -/
theorem Ledger.count_eq (hledger : pathfinder.Ledger starting options state)
    {location : Location} (hlocation : pathfinder.hasLocation location = true) :
    state.spheres.flatten.count location = (state.isReached location).toNat := by
  rcases hasLocation_iff.mp hlocation with ⟨player, hplayer, hlt⟩
  rcases hledger.worlds hplayer with ⟨world, hworld, hbooks⟩
  rw [SearchState.isReached, hworld]
  exact hbooks.once location.check hlt

/-- A location that exists is reached if it is listed. -/
theorem Ledger.isReached_of_mem (hledger : pathfinder.Ledger starting options state)
    {location : Location} (hlocation : pathfinder.hasLocation location = true)
    (hmem : location ∈ state.spheres.flatten) : state.isReached location = true := by
  have hpositive := List.count_pos_iff.mpr hmem
  rw [hledger.count_eq hlocation] at hpositive
  cases hreached : state.isReached location with
  | true => rfl
  | false =>
      rw [hreached] at hpositive
      exact absurd hpositive (Nat.lt_irrefl 0)

theorem Ledger.hasLocation_of_isReached (hledger : pathfinder.Ledger starting options state)
    {location : Location} (hreached : state.isReached location = true) :
    pathfinder.hasLocation location = true := by
  rcases SearchState.isReached_iff.mp hreached with ⟨world, hworld, hcheck⟩
  rcases hledger.exists_books hworld with ⟨player, hplayer, hbooks⟩
  exact hasLocation_iff.mpr ⟨player, hplayer, hbooks.locations ▸ Flags.lt_size_of_has hcheck⟩

/-- A location that is reached is listed. -/
theorem Ledger.mem_of_isReached (hledger : pathfinder.Ledger starting options state)
    {location : Location} (hreached : state.isReached location = true) :
    location ∈ state.spheres.flatten := by
  have hcount := hledger.count_eq (hledger.hasLocation_of_isReached hreached)
  rw [hreached] at hcount
  apply List.count_pos_iff.mp
  rw [hcount]
  exact Nat.zero_lt_one

section Linked

variable (hlinked : ∀ player ∈ pathfinder.players, player.world.Linked)
include hlinked

theorem Ledger.hasLocation_of_mem (hledger : pathfinder.Ledger starting options state)
    {location : Location} (hmem : location ∈ state.spheres.flatten) :
    pathfinder.hasLocation location = true := by
  rcases hledger.listed location hmem with ⟨-, player, hplayer, area, harea, gate, hgate, htarget⟩
  have hlt := (hlinked player (List.mem_of_getElem? hplayer)).locations area harea gate hgate
  exact hasLocation_iff.mpr ⟨player, hplayer, htarget ▸ hlt⟩

/-- No location is listed twice. -/
theorem Ledger.nodup (hledger : pathfinder.Ledger starting options state) :
    state.spheres.flatten.Nodup := by
  rw [List.nodup_iff_count_le_one]
  intro location
  by_cases hmem : location ∈ state.spheres.flatten
  · rw [hledger.count_eq (hledger.hasLocation_of_mem hlinked hmem)]
    exact Bool.toNat_le _
  · rw [List.count_eq_zero_of_not_mem hmem]
    exact Nat.zero_le _

/-- The locations listed are those that are reached. -/
theorem Ledger.mem_iff (hledger : pathfinder.Ledger starting options state)
    {location : Location} :
    location ∈ state.spheres.flatten ↔ state.isReached location = true :=
  ⟨fun hmem => hledger.isReached_of_mem (hledger.hasLocation_of_mem hlinked hmem) hmem,
    hledger.mem_of_isReached⟩

end Linked

end Pathfinder

end SeedLogic
