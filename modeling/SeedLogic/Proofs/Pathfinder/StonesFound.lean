import SeedLogic.Proofs.Pathfinder.Ending
import SeedLogic.Proofs.Pathfinder.LeastFixpoint
import SeedLogic.Proofs.Pathfinder.StoneFlags

/-!
# Hint stones that are found

Hint stones are reached in the middle of sweeps, and to reach one does not make a search go
on.  All the same, a search that asks for them and goes to its end reaches every stone that
a reached area lists with a requirement that holds in the end, since its last round changes
nothing else (`has_of_sees_of_run`).  If requirements are positive and no count wraps
around, what opened on the way is still open, so that it reaches no other stone
(`sees_of_run`).
-/

namespace SeedLogic

/-- What requirements are about grows with the state and the items. -/
theorem WorldState.reading_le {before after : WorldState} (hle : before ≤ after)
    (hitems : ∀ item, before.inventory.count item ≤ after.inventory.count item)
    (settings : Flags) : before.reading settings ≤ after.reading settings :=
  ⟨hitems, fun _ hevent => hle.events.has hevent, rfl⟩

namespace Player

/-- A reached area lists the hint stone, with a requirement that holds. -/
def Sees (player : Player) (state : WorldState) (stone : GossipId) : Prop :=
  ∃ area number, player.world.areas[number]? = some area ∧ state.areas.has number = true ∧
    ∃ gate ∈ area.gossips, gate.target = stone ∧ state.opens player.settings gate = true

instance (player : Player) (state : WorldState) (stone : GossipId) :
    Decidable (player.Sees state stone) :=
  decidable_of_iff (∃ entry ∈ player.world.areas.zipIdx, state.areas.has entry.2 = true ∧
      ∃ gate ∈ entry.1.gossips, gate.target = stone ∧ state.opens player.settings gate = true) <| by
    constructor
    · rintro ⟨⟨area, number⟩, hentry, hreached, hgate⟩
      exact ⟨area, number, List.mk_mem_zipIdx_iff_getElem?.mp hentry, hreached, hgate⟩
    · rintro ⟨area, number, harea, hreached, hgate⟩
      exact ⟨(area, number), List.mk_mem_zipIdx_iff_getElem?.mpr harea, hreached, hgate⟩

variable {player : Player} {before after state : WorldState} {stone : GossipId}

/-! ## Stones that are seen are reached -/

/-- In a world where nothing more can be reached, the hint stones that are seen are reached. -/
theorem Settled.has_of_sees {options : SearchOptions} {id : WorldId}
    (hsettled : player.Settled options id state) (hasked : options.gossips = true)
    (hlt : stone < state.gossips.size) (hsees : player.Sees state stone) :
    state.gossips.has stone = true := by
  rcases hsees with ⟨area, number, harea, hreached, gate, hgate, rfl, hopens⟩
  exact hsettled.closed.gossips hasked (List.mk_mem_zipIdx_iff_getElem?.mpr harea) hreached hgate
    hopens hlt

/-! ## Stones that are reached are seen -/

/-- Every hint stone that is reached is seen. -/
def SeesReached (player : Player) (state : WorldState) : Prop :=
  ∀ stone, state.gossips.has stone = true → player.Sees state stone

section Positive

variable (hpositive : player.world.Positive)
include hpositive

/-- Under positive requirements, a hint stone that is seen stays in sight unless items get
lost. -/
theorem Sees.mono (hle : before ≤ after)
    (hitems : ∀ item, before.inventory.count item ≤ after.inventory.count item)
    (hsees : player.Sees before stone) : player.Sees after stone := by
  rcases hsees with ⟨area, number, harea, hreached, gate, hgate, htarget, hopens⟩
  have hgates := (hpositive area (List.mem_of_getElem? harea)).gossips gate hgate
  refine ⟨area, number, harea, hle.areas.has hreached, gate, hgate, htarget, ?_⟩
  rw [WorldState.opens_iff] at hopens ⊢
  exact hgates.holds_of_le (WorldState.reading_le hle hitems player.settings) hopens

/-- A state that grows without reaching hint stones sees those that it has reached. -/
theorem SeesReached.mono (hsees : player.SeesReached before) (hle : before ≤ after)
    (hitems : ∀ item, before.inventory.count item ≤ after.inventory.count item)
    (hsame : after.gossips = before.gossips) : player.SeesReached after := by
  intro stone hhas
  rw [hsame] at hhas
  exact (hsees stone hhas).mono hpositive hle hitems

/-- A move reaches no hint stone that is not seen. -/
theorem SeesReached.move (hmove : player.Move before after)
    (hsees : player.SeesReached before) : player.SeesReached after := by
  have hle := hmove.le
  cases hmove with
  | event => exact hsees.mono hpositive hle (fun _ => Nat.le_refl _) rfl
  | exit => exact hsees.mono hpositive hle (fun _ => Nat.le_refl _) rfl
  | @gossip entry gate hentry hreached hgate hopens =>
      intro stone hhas
      rcases Flags.has_of_has_mark hhas with rfl | hold
      · exact ⟨entry.1, entry.2, List.mk_mem_zipIdx_iff_getElem?.mp hentry, hreached, gate, hgate,
          rfl, hopens⟩
      · exact (hsees stone hold).mono hpositive hle fun _ => Nat.le_refl _

end Positive

end Player

namespace Pathfinder

variable {pathfinder : Pathfinder} {start? : Option (List String)} {options : SearchOptions}
  {id : WorldId} {player : Player}

/-- A round in which no count of the player wraps around reaches no hint stone that is not
seen. -/
theorem seesReached_round (hpositive : player.world.Positive)
    (hplayer : pathfinder.players[id]? = some player) {state : SearchState}
    {world after : WorldState} (hworld : state.worlds[id]? = some world)
    (hafter : (pathfinder.round options state).worlds[id]? = some after)
    (hitems : ∀ item, world.inventory.count item ≤ after.inventory.count item)
    (hsees : player.SeesReached world) : player.SeesReached after := by
  rcases round_world options hplayer hworld with ⟨other, hother, hreceives⟩
  cases hafter.symm.trans hother
  have hmoves := player.moves_close options.gossips world
  have hfound := player.found_search id options.forbidden (player.close options.gossips world)
  have hclosed : player.SeesReached (player.close options.gossips world) :=
    hmoves.preserve (fun hmove hsees => hsees.move hpositive hmove) hsees
  refine hclosed.mono hpositive (WorldState.le_trans hfound.le hreceives.le) ?_ ?_
  · rw [hmoves.frame.2]
    exact hitems
  · rw [hreceives.frame, hfound.frame]

/-- Rounds in which no count of the player wraps around reach no hint stone that is not seen. -/
theorem seesReached_iterate (hpositive : player.world.Positive)
    (hplayer : pathfinder.players[id]? = some player) {starting : StartingItems}
    {state : SearchState} (hbegins : pathfinder.Begins start? starting state) {last : Nat}
    (hlt : ∀ item, starting.count id item + gifts options
      ((pathfinder.round options)^[last] state).spheres.flatten id item < Inventory.modulus)
    {count : Nat} (hle : count ≤ last) {world : WorldState}
    (hworld : ((pathfinder.round options)^[count] state).worlds[id]? = some world) :
    player.SeesReached world := by
  have hledger := hbegins.ledger options
  induction count generalizing world with
  | zero =>
      rcases hbegins.worlds hplayer with ⟨first, hfirst, hbegun⟩
      cases hworld.symm.trans hfirst
      intro stone hhas
      rw [hbegun.gossips] at hhas
      cases hhas
  | succ count ih =>
      rcases (hledger.iterate count).worlds hplayer with ⟨before, hbefore, -⟩
      have hspheres := (le_iterate options hbegins.length hle).spheres
      have hfits : ∀ item, starting.count id item + gifts options
          ((pathfinder.round options)^[count + 1] state).spheres.flatten id item <
            Inventory.modulus := fun item =>
        Nat.lt_of_le_of_lt (Nat.add_le_add_left hspheres.sublist.flatten.countP_le _) (hlt item)
      have hitems : ∀ item, before.inventory.count item ≤ world.inventory.count item := fun item =>
        hledger.count_le_iterate (Nat.le_succ count) (hfits item) hbefore hworld
      rw [Function.iterate_succ_apply'] at hworld
      exact seesReached_round hpositive hplayer hbefore hworld hitems
        (ih (Nat.le_of_succ_le hle) hbefore)

/-- Under positive requirements, the hint stones that a search reaches are seen in the end, if
the player's items can be counted. -/
theorem sees_of_run {search : Search} (hrun : pathfinder.run start? options = .ok search)
    (hpositive : player.world.Positive) (hplayer : pathfinder.players[id]? = some player)
    (hcountable : (pathfinder.known options search.state.facts id player).Countable)
    {world : WorldState} (hworld : search.state.worlds[id]? = some world) :
    player.SeesReached world := by
  rcases run_eq_ok_iff.mp hrun with ⟨hvalid, state, count, hruns, rfl⟩
  have hbegins := begins_of_begin hruns.begins
  have hledger := (hbegins.ledger options).iterate (count + 1)
  refine seesReached_iterate hpositive hplayer hbegins (fun item => ?_) (Nat.le_refl _) hworld
  rw [gifts_eq_ncard (fun _ => hasLocation_of_collected? hvalid) hledger]
  exact hcountable item

/-- A search that asks for hint stones and goes to its end reaches all that are seen then. -/
theorem has_of_sees_of_run {search : Search} (hrun : pathfinder.run start? options = .ok search)
    (hasked : options.gossips = true) (hstop : options.stopAtGoal = false)
    (hplayer : pathfinder.players[id]? = some player) :
    ∃ world, search.state.worlds[id]? = some world ∧
      ∀ stone < player.world.gossips.length, player.Sees world stone →
        world.gossips.has stone = true := by
  rcases run_eq_ok_iff.mp hrun with ⟨hvalid, state, count, hruns, rfl⟩
  have hledger := ((begins_of_begin hruns.begins).ledger options).iterate count
  rw [Function.iterate_succ_apply']
  rcases exhausted_of_progress_eq hledger (hasLocation_of_collected? hvalid)
    (progress_eq_of_runs hruns hstop) hplayer with ⟨world, hworld, hsettled⟩
  refine ⟨world, hworld, fun stone hlt hsees => hsettled.has_of_sees hasked ?_ hsees⟩
  rw [(hledger.round.books hplayer hworld).gossips]
  exact hlt

/-- Unless its goal depends on hint stones, a search that asks for them and one that does not
fail alike, and where they succeed they differ in nothing but the stones, of which the latter
reaches none.  The former, if it goes to its end, reaches all stones that are seen then, and
under positive requirements no others, as long as the player has no more of any item in the
end than can be counted in 32 bits. -/
theorem run_finds_stones (hgoal : pathfinder.goal.IgnoresStones) (start? : Option (List String))
    (options : SearchOptions) :
    pathfinder.run start? (options.asking false) =
      (pathfinder.run start? (options.asking true)).map Search.withoutStones ∧
    (∀ search, pathfinder.run start? (options.asking false) = .ok search →
      ∀ world ∈ search.state.worlds, ∀ stone, world.gossips.has stone = false) ∧
    ∀ search, pathfinder.run start? (options.asking true) = .ok search →
      options.stopAtGoal = false → ∀ {id : WorldId} {player : Player},
        pathfinder.players[id]? = some player → ∃ world, search.state.worlds[id]? = some world ∧
          (∀ stone < player.world.gossips.length,
            player.Sees world stone → world.gossips.has stone = true) ∧
          (player.world.Positive →
            (pathfinder.known options search.state.facts id player).Countable →
            ∀ stone < player.world.gossips.length,
              world.gossips.has stone = true ↔ player.Sees world stone) := by
  have hsame := pathfinder.run_asking_false options true hgoal start?
  refine ⟨hsame, ?none, ?found⟩
  case none =>
    intro search hrun world hworld stone
    rw [hsame] at hrun
    cases hasking : pathfinder.run start? (options.asking true) with
    | error fault =>
        rw [hasking] at hrun
        cases hrun
    | ok full =>
        rw [hasking] at hrun
        cases hrun
        rcases List.mem_map.mp hworld with ⟨before, -, rfl⟩
        exact Flags.has_clear _ stone
  case found =>
    intro search hrun hstop id player hplayer
    rcases has_of_sees_of_run hrun rfl hstop hplayer with ⟨world, hworld, hall⟩
    refine ⟨world, hworld, hall, fun hpositive hcountable stone hlt => ⟨?_, hall stone hlt⟩⟩
    exact sees_of_run hrun hpositive hplayer hcountable hworld stone

/-- The meadow with a stone that is heard with three swords, and one that is not heard. -/
def listeningMeadow : World :=
  { World.meadow.withArea 1 fun area =>
      { area with gossips := [⟨0, .hasItem 0 3⟩, ⟨1, .hasItem 0 9⟩] } with
    gossips := [⟨"OOT Stone", .oot, .stone⟩, ⟨"OOT Mute Stone", .oot, .stone⟩] }

/-- A player of it who starts with a sword and looks for the way to the cave. -/
def listeningSolver : Pathfinder where
  players := [⟨listeningMeadow, ⟨#[false]⟩⟩]
  starting := ⟨[[(0, 1)]], [[]]⟩
  goal := .events [(0, 0)]

theorem countable_listening (reached : Set Fact) :
    listeningSolver.Countable (meadowOptions.asking true) reached := by
  refine countable_of_lt (fun {id player} hplayer => ?_) reached
  obtain rfl : id = 0 := by simpa [listeningSolver] using (List.getElem?_eq_some_iff.mp hplayer).1
  decide

/-- The third sword is found in the cave, so that the stone is heard in the last round. -/
theorem run_finds_stones_meadow :
    ∃ search world,
      listeningSolver.run none (meadowOptions.asking true) = .ok search ∧
      listeningSolver.run none (meadowOptions.asking false) = .ok search.withoutStones ∧
      search.state.worlds[0]? = some world ∧ world.gossips.has 0 = true ∧
      (⟨listeningMeadow, ⟨#[false]⟩⟩ : Player).Sees world 0 ∧
      ¬(⟨listeningMeadow, ⟨#[false]⟩⟩ : Player).Sees world 1 := by
  have hheard : (listeningSolver.run none (meadowOptions.asking true)).toOption.map
      (fun search => search.state.worlds[0]?.map fun world =>
        (world.gossips.has 0, world.gossips.has 1)) = some (some (true, false)) := by
    decide +kernel
  rcases Outcome.exists_ok_of_toOption hheard with ⟨search, hrun, hview⟩
  have hgoal : listeningSolver.goal.IgnoresStones := Goal.ignoresStones_events [(0, 0)]
  rcases run_finds_stones hgoal none meadowOptions with ⟨hsame, -, hfound⟩
  have hplayer : listeningSolver.players[0]? = some ⟨listeningMeadow, ⟨#[false]⟩⟩ := rfl
  rcases hfound search hrun rfl hplayer with ⟨world, hworld, -, hiff⟩
  have hpositive : listeningMeadow.Positive := by decide +kernel
  have hstones := hiff hpositive (countable_listening _ hplayer)
  rw [hworld] at hview
  obtain ⟨hreached, hmissed⟩ := Prod.mk.inj (Option.some.inj hview)
  refine ⟨search, world, hrun, hsame.trans (hrun ▸ rfl), hworld, hreached,
    (hstones 0 (by decide)).mp hreached, fun hsees => ?_⟩
  rw [(hstones 1 (by decide)).mpr hsees] at hmissed
  cases hmissed

/-- A player of it with as many swords as can be counted. -/
def listeningHoarder : Pathfinder :=
  { listeningSolver with starting := ⟨[[(0, 4294967295)]], [[]]⟩ }

/-- The hoarder hears the stone at once, but with the swords from the chest and the cave has
only a single one in the end. -/
theorem run_loses_stone :
    listeningMeadow.Positive ∧ listeningHoarder.Accepts none (meadowOptions.asking true) ∧
    meadowOptions.stopAtGoal = false ∧
    ∃ search world, listeningHoarder.run none (meadowOptions.asking true) = .ok search ∧
      search.state.worlds[0]? = some world ∧ world.gossips.has 0 = true ∧
      ¬(⟨listeningMeadow, ⟨#[false]⟩⟩ : Player).Sees world 0 := by
  have haccepts : listeningHoarder.Accepts none (meadowOptions.asking true) :=
    accepts_iff.mpr ⟨rfl, _, rfl⟩
  have hheard : (listeningHoarder.run none (meadowOptions.asking true)).toOption.map
      (fun search => search.state.worlds[0]?.map fun world => (world.gossips.has 0,
        decide ((⟨listeningMeadow, ⟨#[false]⟩⟩ : Player).Sees world 0))) =
      some (some (true, false)) := by
    decide +kernel
  rcases Outcome.exists_ok_of_toOption hheard with ⟨search, hrun, hview⟩
  cases hworld : search.state.worlds[0]? with
  | none =>
      rw [hworld] at hview
      cases hview
  | some world =>
      rw [hworld] at hview
      obtain ⟨hreached, hmissed⟩ := Prod.mk.inj (Option.some.inj hview)
      exact ⟨by decide +kernel, haccepts, rfl, search, world, hrun, hworld, hreached,
        of_decide_eq_false hmissed⟩

end Pathfinder

end SeedLogic
