import SeedLogic.Proofs.Pathfinder.Ledger

/-!
# Settled searches

A round in which nobody receives an item leaves every world as it is after closing and
searching it, so that nothing more can be reached (`exhausted_of_gifts_eq_zero`).  So
does a round without progress, since it finds no location that exists
(`not_hasLocation_of_mem_sphere`).  From then on, every round finds nothing
(`sphere_eq_nil_of_exhausted`).
-/

namespace SeedLogic

namespace Player

/-- Nothing more can be reached in a world: it is closed, and its locations that are
open are reached unless they are forbidden. -/
structure Settled (player : Player) (options : SearchOptions) (id : WorldId)
    (state : WorldState) : Prop where
  closed : player.Closed options.gossips state
  locations : ∀ {entry}, entry ∈ player.world.areas.zipIdx → state.areas.has entry.2 = true →
    ∀ {gate}, gate ∈ entry.1.locations → state.opens player.settings gate = true →
      (⟨id, gate.target⟩ : Location) ∉ options.forbidden →
      gate.target < state.locations.size → state.locations.has gate.target = true

variable {player : Player}

/-- Being closed is a matter of areas, events, hint stones and items. -/
theorem Closed.congr {gossips : Bool} {state other : WorldState}
    (hclosed : player.Closed gossips state) (hareas : other.areas = state.areas)
    (hevents : other.events = state.events) (hgossips : other.gossips = state.gossips)
    (hcount : ∀ item, other.inventory.count item = state.inventory.count item) :
    player.Closed gossips other := by
  have hopens : ∀ gate, other.opens player.settings gate = state.opens player.settings gate :=
    fun gate => WorldState.opens_congr player.settings gate hevents hcount
  constructor
  · intro entry hentry hreached gate hgate hopen hlt
    rw [hareas] at hreached
    rw [hopens] at hopen
    rw [hevents] at hlt ⊢
    exact hclosed.events hentry hreached hgate hopen hlt
  · intro entry hentry hreached gate hgate hopen hlt
    rw [hareas] at hreached hlt ⊢
    rw [hopens] at hopen
    exact hclosed.exits hentry hreached hgate hopen hlt
  · intro hasked entry hentry hreached gate hgate hopen hlt
    rw [hareas] at hreached
    rw [hopens] at hopen
    rw [hgossips] at hlt ⊢
    exact hclosed.gossips hasked hentry hreached hgate hopen hlt

/-- Moves reach no area and no event of a closed world: wherever they go is reached. -/
theorem Closed.moves {gossips : Bool} {state after : WorldState}
    (hclosed : player.Closed gossips state) (hmoves : player.Moves state after) :
    after.areas = state.areas ∧ after.events = state.events := by
  induction hmoves with
  | refl => exact ⟨rfl, rfl⟩
  | @tail before _ hearly hmove ih =>
      rcases ih with ⟨hareas, hevents⟩
      have hopens : ∀ gate,
          before.opens player.settings gate = state.opens player.settings gate :=
        fun gate => WorldState.opens_congr player.settings gate hevents fun item => by
          rw [(Moves.frame hearly).2]
      cases hmove with
      | event hentry hreached hgate hopen =>
          rw [hareas] at hreached
          rw [hopens] at hopen
          refine ⟨hareas, ?_⟩
          rw [hevents]
          exact Flags.mark_eq_self (hclosed.events hentry hreached hgate hopen)
      | exit hentry hreached hgate hopen =>
          rw [hareas] at hreached
          rw [hopens] at hopen
          refine ⟨?_, hevents⟩
          rw [hareas]
          exact Flags.mark_eq_self (hclosed.exits hentry hreached hgate hopen)
      | gossip => exact ⟨hareas, hevents⟩

end Player

namespace Pathfinder

variable {pathfinder : Pathfinder} {starting : StartingItems} {options : SearchOptions}
  {state : SearchState}

/-- Nothing more can be reached in any world. -/
def Exhausted (pathfinder : Pathfinder) (options : SearchOptions) (state : SearchState) : Prop :=
  ∀ {id : WorldId} {player : Player}, pathfinder.players[id]? = some player →
    ∃ world, state.worlds[id]? = some world ∧ player.Settled options id world

/-! ## Rounds without progress -/

/-- Without progress, the areas, events and locations of every world stay the same. -/
theorem same_of_progress_eq (hlength : state.worlds.length = pathfinder.players.length)
    (hprogress : (pathfinder.round options state).progress = state.progress) {id : WorldId}
    {before after : WorldState} (hbefore : state.worlds[id]? = some before)
    (hafter : (pathfinder.round options state).worlds[id]? = some after) :
    after.areas = before.areas ∧ after.events = before.events ∧
      after.locations = before.locations := by
  rcases List.getElem?_eq_some_iff.mp hbefore with ⟨hid, rfl⟩
  rcases List.getElem?_eq_some_iff.mp hafter with ⟨hid', rfl⟩
  have hsame := SearchState.forall₂_eq_of_total_progress_eq
    (le_round options state hlength).worlds hprogress
  exact (List.forall₂_iff_get.mp hsame).2 id hid hid'

/-- A round in which nobody receives an item leaves nothing that can be reached. -/
theorem exhausted_of_gifts_eq_zero (hledger : pathfinder.Ledger starting options state)
    (hnothing : ∀ id item, gifts options (pathfinder.sphere options state) id item = 0) :
    pathfinder.Exhausted options (pathfinder.round options state) := by
  intro id player hplayer
  rcases hledger.worlds hplayer with ⟨before, hbefore, hbooks⟩
  rcases round_world options hplayer hbefore with ⟨after, hafter, hreceives⟩
  have hclosed := player.closed_close options.gossips before
  have hfound := player.found_search id options.forbidden
    (player.close options.gossips before)
  have hareas : after.areas = (player.close options.gossips before).areas := by
    rw [hreceives.frame, hfound.frame]
  have hevents : after.events = (player.close options.gossips before).events := by
    rw [hreceives.frame, hfound.frame]
  have hgossips : after.gossips = (player.close options.gossips before).gossips := by
    rw [hreceives.frame, hfound.frame]
  have hcount : ∀ item, after.inventory.count item =
      (player.close options.gossips before).inventory.count item := by
    intro item
    have hinventory : (player.search id options.forbidden
        (player.close options.gossips before)).1.inventory = before.inventory := by
      rw [hfound.frame]
      exact (player.moves_close options.gossips before).frame.2
    have hlt := hbooks.count_lt item
    have hcount := hreceives.count item
    rw [hinventory] at hcount
    rw [hcount hlt, hnothing, Nat.add_zero, Nat.mod_eq_of_lt hlt,
      (player.moves_close options.gossips before).frame.2]
  refine ⟨after, hafter, hclosed.congr hareas hevents hgossips hcount, ?_⟩
  intro entry hentry hreached gate hgate hopen hallowed hlt
  have hlocations : after.locations = (player.search id options.forbidden
      (player.close options.gossips before)).1.locations := by
    rw [hreceives.frame]
  rw [hareas] at hreached
  rw [WorldState.opens_congr player.settings gate hevents hcount] at hopen
  rw [hlocations, ← hfound.locations.size] at hlt
  rw [hlocations]
  exact Player.search_complete hentry hreached hgate hopen hallowed hlt

/-- Without progress, nothing has been found that exists. -/
theorem not_hasLocation_of_mem_sphere (hledger : pathfinder.Ledger starting options state)
    (hprogress : (pathfinder.round options state).progress = state.progress)
    {location : Location} (hmem : location ∈ pathfinder.sphere options state) :
    ¬pathfinder.hasLocation location = true := by
  intro hlocation
  rcases mem_sphere.mp hmem with ⟨player, before, hplayer, hbefore, hfound⟩
  rcases hasLocation_iff.mp hlocation with ⟨other, hother, hcheck⟩
  cases hplayer.symm.trans hother
  have hmoves := player.moves_close options.gossips before
  have hlt : location.check < (player.close options.gossips before).locations.size := by
    rw [hmoves.frame.1, (hledger.books hplayer hbefore).locations]
    exact hcheck
  rcases (player.found_search location.world options.forbidden
    (player.close options.gossips before)).has_of_mem hfound hlt with ⟨hold, hnew⟩
  rcases round_world options hplayer hbefore with ⟨after, hafter, hreceives⟩
  have hsame := (same_of_progress_eq hledger.length hprogress hbefore hafter).2.2
  rw [hreceives.frame] at hsame
  rw [hmoves.frame.1, ← hsame, hnew] at hold
  cases hold

/-- A round without progress leaves nothing that can be reached, if it collects nothing at
locations that do not exist. -/
theorem exhausted_of_progress_eq (hledger : pathfinder.Ledger starting options state)
    (hexists : ∀ {location placed}, options.collected? location = some placed →
      pathfinder.hasLocation location = true)
    (hprogress : (pathfinder.round options state).progress = state.progress) :
    pathfinder.Exhausted options (pathfinder.round options state) := by
  refine exhausted_of_gifts_eq_zero hledger fun id item => List.countP_eq_zero.mpr ?_
  intro location hmem hcollected
  exact not_hasLocation_of_mem_sphere hledger hprogress hmem
    (hexists (of_decide_eq_true hcollected))

variable (hlinked : ∀ player ∈ pathfinder.players, player.world.Linked)
include hlinked

/-- Without progress, no location has been found. -/
theorem sphere_eq_nil (hledger : pathfinder.Ledger starting options state)
    (hprogress : (pathfinder.round options state).progress = state.progress) :
    pathfinder.sphere options state = [] := by
  rw [List.eq_nil_iff_forall_not_mem]
  intro location hmem
  apply not_hasLocation_of_mem_sphere hledger hprogress hmem
  apply hledger.round.hasLocation_of_mem hlinked
  rw [flatten_spheres_round]
  exact List.mem_append_right _ hmem

/-- A round without progress leaves nothing that can be reached. -/
theorem exhausted_round (hledger : pathfinder.Ledger starting options state)
    (hprogress : (pathfinder.round options state).progress = state.progress) :
    pathfinder.Exhausted options (pathfinder.round options state) := by
  apply exhausted_of_gifts_eq_zero hledger
  intro id item
  rw [sphere_eq_nil hlinked hledger hprogress]
  rfl

/-! ## Rounds that find nothing -/

/-- When nothing more can be reached, a round finds no location. -/
theorem sphere_eq_nil_of_exhausted (hledger : pathfinder.Ledger starting options state)
    (hexhausted : pathfinder.Exhausted options state) :
    pathfinder.sphere options state = [] := by
  rw [List.eq_nil_iff_forall_not_mem]
  intro location hlocation
  rcases mem_sphere.mp hlocation with ⟨player, before, hplayer, hbefore, hmem⟩
  rcases hexhausted hplayer with ⟨world, hworld, hsettled⟩
  cases hbefore.symm.trans hworld
  have hmoves := player.moves_close options.gossips before
  rcases hsettled.closed.moves hmoves with ⟨hareas, hevents⟩
  have hfound := player.found_search location.world options.forbidden
    (player.close options.gossips before)
  rcases hfound.source location hmem with
    ⟨-, hallowed, entry, hentry, hreached, gate, hgate, htarget, hopens⟩
  rw [hareas] at hreached
  rw [WorldState.opens_congr player.settings gate hevents fun item => by rw [hmoves.frame.2]]
    at hopens
  have hlt : gate.target < before.locations.size := by
    rw [(hledger.books hplayer hbefore).locations]
    exact (hlinked player (List.mem_of_getElem? hplayer)).locations entry.1
      (List.fst_mem_of_mem_zipIdx hentry) gate hgate
  have hset := hsettled.locations hentry hreached hgate hopens (htarget ▸ hallowed) hlt
  have hnew := (hfound.has_of_mem hmem (hmoves.frame.1 ▸ htarget ▸ hlt)).1
  rw [hmoves.frame.1, ← htarget, hset] at hnew
  cases hnew

/-- After a round that finds nothing, the next one finds nothing either. -/
theorem sphere_round_eq_nil (hledger : pathfinder.Ledger starting options state)
    (hnil : pathfinder.sphere options state = []) :
    pathfinder.sphere options (pathfinder.round options state) = [] := by
  apply sphere_eq_nil_of_exhausted hlinked hledger.round
  apply exhausted_of_gifts_eq_zero hledger
  intro id item
  rw [hnil]
  rfl

end Pathfinder

end SeedLogic
