import Mathlib.Order.Bounds.Basic
import SeedLogic.Proofs.Pathfinder.Rules

/-!
# Searches find the least fixpoint

What a search reaches lies in every set of facts that is closed under the rules,
since each move and each find is an instance of a rule (`facts_round_subset`), and counts
that wrap around only become less.  When nothing more can be reached and no count has
wrapped around, it has what exists and follows (`mem_facts_of_enabled`), which in linked
worlds means that it is itself closed under them (`ruleClosed_facts`).  So a search that
goes to its end reaches the least such set, which is what can be derived in finitely many
steps.
-/

namespace SeedLogic

namespace WorldState

/-- Everything reached in a world is among the facts. -/
structure Within (reached : Set Fact) (id : WorldId) (state : WorldState) : Prop where
  areas : ∀ {area : Nat}, state.areas.has area = true → Fact.area id area ∈ reached
  events : ∀ {event : Nat}, state.events.has event = true → Fact.event id event ∈ reached
  locations : ∀ {check : Nat}, state.locations.has check = true →
    Fact.location ⟨id, check⟩ ∈ reached

end WorldState

theorem SearchState.facts_subset_iff {state : SearchState} {reached : Set Fact} :
    state.facts ⊆ reached ↔
      ∀ (id : WorldId) (world : WorldState), state.worlds[id]? = some world →
        world.Within reached id := by
  constructor
  · intro hsubset id world hworld
    constructor
    · intro area harea
      exact hsubset (show state.Reaches (.area id area) from ⟨world, hworld, harea⟩)
    · intro event hevent
      exact hsubset (show state.Reaches (.event id event) from ⟨world, hworld, hevent⟩)
    · intro check hcheck
      exact hsubset (show state.Reaches (.location ⟨id, check⟩) from
        isReached_iff.mpr ⟨world, hworld, hcheck⟩)
  · rintro hworlds (⟨id, area⟩ | ⟨id, event⟩ | ⟨id, check⟩) hfact
    · rcases hfact with ⟨world, hworld, harea⟩
      exact (hworlds id world hworld).areas harea
    · rcases hfact with ⟨world, hworld, hevent⟩
      exact (hworlds id world hworld).events hevent
    · rcases isReached_iff.mp hfact with ⟨world, hworld, hcheck⟩
      exact (hworlds id world hworld).locations hcheck

namespace Pathfinder

variable {pathfinder : Pathfinder} {start? : Option (List String)} {options : SearchOptions}
  {state : SearchState} {reached : Set Fact}

/-! ## Items and facts -/

section Exists

variable (hexists : ∀ {location : Location} {placed : PlayerItem},
    location ∈ state.spheres.flatten → options.collected? location = some placed →
      pathfinder.hasLocation location = true)
  (hledger : pathfinder.Ledger (pathfinder.startingOf options) options state)
include hexists hledger

/-- If nothing is collected at locations that do not exist, the items given at the listed
locations are counted by the set of reached locations that hold them. -/
theorem gifts_eq_ncard (id : WorldId) (item : ItemId) :
    gifts options state.spheres.flatten id item =
      (holding options state.facts id item).ncard := by
  let kept := state.spheres.flatten.filter fun location =>
    options.collected? location = some ⟨id, item⟩
  have hkept : ∀ {location}, location ∈ kept →
      pathfinder.hasLocation location = true ∧ location ∈ state.spheres.flatten ∧
        options.collected? location = some ⟨id, item⟩ := by
    intro location hmem
    rcases List.mem_filter.mp hmem with ⟨hlisted, hcollected⟩
    have hplaced := of_decide_eq_true hcollected
    exact ⟨hexists hlisted hplaced, hlisted, hplaced⟩
  have hnodup : kept.Nodup := by
    rw [List.nodup_iff_count_le_one]
    intro location
    by_cases hmem : location ∈ kept
    · refine (List.filter_sublist.count_le location).trans ?_
      rw [hledger.count_eq (hkept hmem).1]
      exact Bool.toNat_le _
    · rw [List.count_eq_zero_of_not_mem hmem]
      exact Nat.zero_le _
  have hholding : holding options state.facts id item = (kept.toFinset : Set Location) := by
    ext location
    rw [List.coe_toFinset]
    constructor
    · rintro ⟨hreached, hcollected⟩
      exact List.mem_filter.mpr
        ⟨hledger.mem_of_isReached hreached, decide_eq_true hcollected⟩
    · intro hmem
      rcases hkept hmem with ⟨hlocation, hlisted, hcollected⟩
      exact ⟨hledger.isReached_of_mem hlocation hlisted, hcollected⟩
  rw [hholding, Set.ncard_coe_finset, List.toFinset_card_of_nodup hnodup, gifts,
    List.countP_eq_length_filter]

theorem inventory_count_eq_of_exists {id : WorldId} {player : Player} {world : WorldState}
    (hplayer : pathfinder.players[id]? = some player) (hworld : state.worlds[id]? = some world)
    (item : ItemId) : world.inventory.count item =
      (pathfinder.known options state.facts id player).count item % Inventory.modulus := by
  rw [(hledger.books hplayer hworld).count, gifts_eq_ncard hexists hledger]
  rfl

/-- What requirements are about in a world is what is known by the facts, if it can be
counted. -/
theorem reading_eq_known {id : WorldId} {player : Player} {world : WorldState}
    (hplayer : pathfinder.players[id]? = some player) (hworld : state.worlds[id]? = some world)
    (hcountable : (pathfinder.known options state.facts id player).Countable) :
    world.reading player.settings = pathfinder.known options state.facts id player := by
  apply Reading.ext
  · funext item
    exact (inventory_count_eq_of_exists hexists hledger hplayer hworld item).trans
      (Nat.mod_eq_of_lt (hcountable item))
  · ext event
    constructor
    · exact fun hevent => ⟨world, hworld, hevent⟩
    · rintro ⟨other, hother, hevent⟩
      cases hworld.symm.trans hother
      exact hevent
  · rfl

end Exists

/-- In linked worlds, the items that are known by the facts are those from the start and those
given at the listed locations. -/
theorem known_count_eq (hlinked : ∀ player ∈ pathfinder.players, player.world.Linked)
    (hledger : pathfinder.Ledger (pathfinder.startingOf options) options state) (id : WorldId)
    (player : Player) (item : ItemId) :
    (pathfinder.known options state.facts id player).count item =
      (pathfinder.startingOf options).count id item +
        gifts options state.spheres.flatten id item := by
  rw [gifts_eq_ncard (fun hmem _ => hledger.hasLocation_of_mem hlinked hmem) hledger]
  rfl

/-- In linked worlds, a player has the items that are known by the facts, as far as can be
counted. -/
theorem inventory_count_eq (hlinked : ∀ player ∈ pathfinder.players, player.world.Linked)
    (hledger : pathfinder.Ledger (pathfinder.startingOf options) options state) {id : WorldId}
    {player : Player} {world : WorldState} (hplayer : pathfinder.players[id]? = some player)
    (hworld : state.worlds[id]? = some world) (item : ItemId) :
    world.inventory.count item =
      (pathfinder.known options state.facts id player).count item % Inventory.modulus :=
  inventory_count_eq_of_exists (fun hmem _ => hledger.hasLocation_of_mem hlinked hmem) hledger
    hplayer hworld item

/-! ## Soundness -/

/-- A round reaches what is found in each world once it is closed. -/
theorem facts_round_subset_iff (hlength : state.worlds.length = pathfinder.players.length) :
    (pathfinder.round options state).facts ⊆ reached ↔
      ∀ (id : WorldId) (player : Player) (world : WorldState),
        pathfinder.players[id]? = some player → state.worlds[id]? = some world →
          (player.search id options.forbidden
            (player.close options.gossips world)).1.Within reached id := by
  rw [SearchState.facts_subset_iff]
  constructor
  · intro hwithin id player world hplayer hworld
    rcases round_world options hplayer hworld with ⟨after, hafter, hreceives⟩
    have hfacts := hwithin id after hafter
    rw [hreceives.frame] at hfacts
    exact ⟨hfacts.areas, hfacts.events, hfacts.locations⟩
  · intro hfound id after hafter
    rcases exists_player (length_worlds_round state hlength) hafter with ⟨player, hplayer⟩
    obtain ⟨world, hworld⟩ : ∃ world, state.worlds[id]? = some world := by
      have hid := (List.getElem?_eq_some_iff.mp hplayer).1
      exact ⟨_, List.getElem?_eq_getElem (hlength ▸ hid)⟩
    rcases round_world options hplayer hworld with ⟨other, hother, hreceives⟩
    cases hafter.symm.trans hother
    have hwithin := hfound id player world hplayer hworld
    rw [hreceives.frame]
    exact ⟨hwithin.areas, hwithin.events, hwithin.locations⟩

/-- A world whose areas, events, locations and items are all accounted for by facts. -/
structure Supported (pathfinder : Pathfinder) (options : SearchOptions) (reached : Set Fact)
    (id : WorldId) (player : Player) (state : WorldState) : Prop where
  within : state.Within reached id
  count : ∀ item, state.inventory.count item ≤
    (pathfinder.known options reached id player).count item

/-- A positive gate that is open in a supported world is open by the facts. -/
theorem Supported.holds {id : WorldId} {player : Player} {world : WorldState}
    (hsupported : pathfinder.Supported options reached id player world) {gate : Gate}
    (hgate : gate.requirement.Positive) (hopens : world.opens player.settings gate = true) :
    gate.requirement.Holds (pathfinder.known options reached id player) := by
  have hreading : world.reading player.settings ≤ pathfinder.known options reached id player :=
    ⟨hsupported.count, fun event hevent => hsupported.within.events hevent, rfl⟩
  exact hgate.holds_of_le hreading (WorldState.opens_iff.mp hopens)

section Sound

variable (hclosed : pathfinder.RuleClosed start? options reached)
include hclosed

/-- What a search begins with is among the facts if its events are. -/
theorem Begins.facts_subset_of_events {starting : StartingItems}
    (hbegins : pathfinder.Begins start? starting state)
    (hevents : ∀ id, starting.eventsOf id ⊆ (pathfinder.startingOf options).eventsOf id) :
    state.facts ⊆ reached := by
  rw [SearchState.facts_subset_iff]
  intro id world hworld
  rcases exists_player hbegins.length hworld with ⟨player, hplayer⟩
  rcases hbegins.worlds hplayer with ⟨other, hother, hbegun⟩
  cases hworld.symm.trans hother
  constructor
  · intro area harea
    exact hclosed _ (.start hplayer ((hbegun.areas area).mp harea).1)
  · intro event hevent
    exact hclosed _ (.given hplayer (hevents id ((hbegun.events event).mp hevent).1))
  · intro check hcheck
    rw [hbegun.locations] at hcheck
    cases hcheck

theorem Begins.facts_subset
    (hbegins : pathfinder.Begins start? (pathfinder.startingOf options) state) :
    state.facts ⊆ reached :=
  hbegins.facts_subset_of_events hclosed fun _ => List.Subset.refl _

variable (hpositive : ∀ player ∈ pathfinder.players, player.world.Positive)
include hpositive

/-- A move of a supported world is an instance of a rule. -/
theorem Supported.move {id : WorldId} {player : Player}
    (hplayer : pathfinder.players[id]? = some player) {before after : WorldState}
    (hmove : player.Move before after)
    (hsupported : pathfinder.Supported options reached id player before) :
    pathfinder.Supported options reached id player after := by
  rcases hsupported with ⟨hwithin, hcount⟩
  cases hmove with
  | event hentry hreached hgate hopens =>
      have hgates := (positive_of_entry hpositive hplayer hentry).events _ hgate
      have hfact := hclosed _ (.event hplayer hentry (hwithin.areas hreached) hgate
        (Supported.holds ⟨hwithin, hcount⟩ hgates hopens))
      refine ⟨⟨hwithin.areas, fun hevent => ?_, hwithin.locations⟩, hcount⟩
      rcases Flags.has_of_has_mark hevent with rfl | hold
      · exact hfact
      · exact hwithin.events hold
  | exit hentry hreached hgate hopens =>
      have hgates := (positive_of_entry hpositive hplayer hentry).exits _ hgate
      have hfact := hclosed _ (.exit hplayer hentry (hwithin.areas hreached) hgate
        (Supported.holds ⟨hwithin, hcount⟩ hgates hopens))
      refine ⟨⟨fun harea => ?_, hwithin.events, hwithin.locations⟩, hcount⟩
      rcases Flags.has_of_has_mark harea with rfl | hold
      · exact hfact
      · exact hwithin.areas hold
  | gossip => exact ⟨⟨hwithin.areas, hwithin.events, hwithin.locations⟩, hcount⟩

/-- So is a location that is found. -/
theorem Supported.found {id : WorldId} {player : Player}
    (hplayer : pathfinder.players[id]? = some player) {state : WorldState}
    {found : WorldState × List Location}
    (hfound : player.Found id options.forbidden state found)
    (hsupported : pathfinder.Supported options reached id player state) :
    found.1.Within reached id := by
  rw [hfound.frame]
  refine ⟨hsupported.within.areas, hsupported.within.events, fun {check} hcheck => ?_⟩
  by_cases hold : state.locations.has check = true
  · exact hsupported.within.locations hold
  · have hlt : check < state.locations.size := by
      rw [hfound.locations.size]
      exact Flags.lt_size_of_has hcheck
    have hcount := hfound.count check hlt
    rw [Bool.eq_false_iff.mpr hold, hcheck] at hcount
    have hmem : (⟨id, check⟩ : Location) ∈ found.2 := by
      apply List.count_pos_iff.mp
      simp only [Bool.toNat_false, Bool.toNat_true] at hcount
      omega
    rcases hfound.source _ hmem with
      ⟨-, hallowed, entry, hentry, hreached, gate, hgate, htarget, hopens⟩
    have hgates := (positive_of_entry hpositive hplayer hentry).locations _ hgate
    obtain rfl : gate.target = check := htarget
    exact hclosed _ (.location hplayer hentry (hsupported.within.areas hreached) hgate
      (hsupported.holds hgates hopens) hallowed)

/-- A round of a search that forbids no less stays within facts that are closed under the
rules, as long as the players have no more items than is known by the facts. -/
theorem facts_round_subset_of_count {other : SearchOptions}
    (hforbidden : options.forbidden ⊆ other.forbidden)
    (hlength : state.worlds.length = pathfinder.players.length) (hsubset : state.facts ⊆ reached)
    (hcount : ∀ (id : WorldId) (player : Player) (world : WorldState),
      pathfinder.players[id]? = some player → state.worlds[id]? = some world → ∀ item,
        world.inventory.count item ≤ (pathfinder.known options reached id player).count item) :
    (pathfinder.round other state).facts ⊆ reached := by
  rw [facts_round_subset_iff hlength]
  intro id player before hplayer hbefore
  have hsupported : pathfinder.Supported options reached id player before :=
    ⟨SearchState.facts_subset_iff.mp hsubset id before hbefore,
      hcount id player before hplayer hbefore⟩
  have hmoved : pathfinder.Supported options reached id player
      (player.close other.gossips before) :=
    (player.moves_close other.gossips before).preserve
      (fun hmove hsupported => hsupported.move hclosed hpositive hplayer hmove) hsupported
  exact hmoved.found hclosed hpositive hplayer
    ((player.found_search id other.forbidden _).mono hforbidden)

variable (hlinked : ∀ player ∈ pathfinder.players, player.world.Linked)
include hlinked

/-- A round stays within facts that are closed under the rules. -/
theorem facts_round_subset
    (hledger : pathfinder.Ledger (pathfinder.startingOf options) options state)
    (hsubset : state.facts ⊆ reached) : (pathfinder.round options state).facts ⊆ reached := by
  refine facts_round_subset_of_count hclosed hpositive (List.Subset.refl _) hledger.length
    hsubset fun id player before hplayer hbefore item => ?_
  calc before.inventory.count item
      = (pathfinder.known options state.facts id player).count item % Inventory.modulus :=
        inventory_count_eq hlinked hledger hplayer hbefore item
    _ ≤ (pathfinder.known options state.facts id player).count item := Nat.mod_le _ _
    _ ≤ (pathfinder.known options reached id player).count item :=
        (known_le_of_subset hsubset id player).count item

theorem facts_iterate_subset
    (hledger : pathfinder.Ledger (pathfinder.startingOf options) options state)
    (hsubset : state.facts ⊆ reached) (count : Nat) :
    ((pathfinder.round options)^[count] state).facts ⊆ reached := by
  induction count with
  | zero => exact hsubset
  | succ count ih =>
      rw [Function.iterate_succ_apply']
      exact facts_round_subset hclosed hpositive hlinked (hledger.iterate count) ih

end Sound

/-! ## Completeness -/

/-- What a fact is about exists. -/
def HasFact (pathfinder : Pathfinder) : Fact → Prop
  | .area id area =>
      ∃ player, pathfinder.players[id]? = some player ∧ area < player.world.areas.length
  | .event id event =>
      ∃ player, pathfinder.players[id]? = some player ∧ event < player.world.eventCount
  | .location location => pathfinder.hasLocation location = true

/-- What is reached exists. -/
theorem Ledger.hasFact_of_mem {starting : StartingItems}
    (hledger : pathfinder.Ledger starting options state) {fact : Fact}
    (hfact : fact ∈ state.facts) : pathfinder.HasFact fact := by
  cases fact with
  | area id area =>
      rcases hfact with ⟨world, hworld, harea⟩
      rcases hledger.exists_books hworld with ⟨player, hplayer, hbooks⟩
      exact ⟨player, hplayer, hbooks.areas ▸ Flags.lt_size_of_has harea⟩
  | event id event =>
      rcases hfact with ⟨world, hworld, hevent⟩
      rcases hledger.exists_books hworld with ⟨player, hplayer, hbooks⟩
      exact ⟨player, hplayer, hbooks.events ▸ Flags.lt_size_of_has hevent⟩
  | location => exact hledger.hasLocation_of_isReached hfact

/-- In linked worlds, what follows by a rule exists. -/
theorem hasFact_of_enabled (hlinked : ∀ player ∈ pathfinder.players, player.world.Linked)
    (hgiven : ∀ {id : WorldId} {player : Player} {event : EventId},
      pathfinder.players[id]? = some player →
      event ∈ (pathfinder.startingOf options).eventsOf id →
        pathfinder.HasFact (.event id event))
    {fact : Fact} (henabled : pathfinder.Enabled start? options reached fact) :
    pathfinder.HasFact fact := by
  cases henabled with
  | start hplayer harea =>
      exact ⟨_, hplayer, lt_of_isStart (hlinked _ (List.mem_of_getElem? hplayer)) harea⟩
  | given hplayer hevent => exact hgiven hplayer hevent
  | exit hplayer hentry _ hgate _ =>
      exact ⟨_, hplayer, (hlinked _ (List.mem_of_getElem? hplayer)).exits _
        (List.fst_mem_of_mem_zipIdx hentry) _ hgate⟩
  | event hplayer hentry _ hgate _ =>
      exact ⟨_, hplayer, (hlinked _ (List.mem_of_getElem? hplayer)).events _
        (List.fst_mem_of_mem_zipIdx hentry) _ hgate⟩
  | location hplayer hentry _ hgate _ _ =>
      have hlt := (hlinked _ (List.mem_of_getElem? hplayer)).locations _
        (List.fst_mem_of_mem_zipIdx hentry) _ hgate
      exact hasLocation_iff.mpr ⟨_, hplayer, hlt⟩

/-- What a search begins with is reached if it exists. -/
theorem Begins.reaches_start_of_lt {starting : StartingItems}
    (hbegins : pathfinder.Begins start? starting state) {id : WorldId} {player : Player}
    (hplayer : pathfinder.players[id]? = some player) {area : AreaId}
    (hstart : IsStart start? player.world area) (hlt : area < player.world.areas.length) :
    Fact.area id area ∈ state.facts := by
  rcases hbegins.worlds hplayer with ⟨world, hworld, hbegun⟩
  exact ⟨world, hworld, (hbegun.areas area).mpr ⟨hstart, hlt⟩⟩

theorem Begins.reaches_start (hlinked : ∀ player ∈ pathfinder.players, player.world.Linked)
    (hbegins : pathfinder.Begins start? (pathfinder.startingOf options) state) {id : WorldId}
    {player : Player} (hplayer : pathfinder.players[id]? = some player) {area : AreaId}
    (hstart : IsStart start? player.world area) : Fact.area id area ∈ state.facts :=
  hbegins.reaches_start_of_lt hplayer hstart
    (lt_of_isStart (hlinked player (List.mem_of_getElem? hplayer)) hstart)

theorem Begins.reaches_given (haccepts : pathfinder.Accepts start? options)
    (hbegins : pathfinder.Begins start? (pathfinder.startingOf options) state) {id : WorldId}
    {player : Player} (hplayer : pathfinder.players[id]? = some player) {event : EventId}
    (hgiven : event ∈ (pathfinder.startingOf options).eventsOf id) :
    Fact.event id event ∈ state.facts := by
  rcases hbegins.worlds hplayer with ⟨world, hworld, hbegun⟩
  exact ⟨world, hworld,
    (hbegun.events event).mpr ⟨hgiven, haccepts.lt_of_given hplayer hgiven⟩⟩

theorem facts_subset_of_le {before after : SearchState} (hle : before ≤ after) :
    before.facts ⊆ after.facts := by
  rw [SearchState.facts_subset_iff]
  intro id world hworld
  rcases SearchState.exists_world_of_le hle hworld with ⟨later, hlater, hgrows⟩
  have hwithin := SearchState.facts_subset_iff.mp (Set.Subset.refl after.facts) id later hlater
  constructor
  · exact fun harea => hwithin.areas (hgrows.areas.has harea)
  · exact fun hevent => hwithin.events (hgrows.events.has hevent)
  · exact fun hcheck => hwithin.locations (hgrows.locations.has hcheck)

theorem Exhausted.exists_world {starting : StartingItems}
    (hexhausted : pathfinder.Exhausted options state)
    (hledger : pathfinder.Ledger starting options state) {id : WorldId} {player : Player}
    (hplayer : pathfinder.players[id]? = some player) {area : AreaId}
    (hreached : Fact.area id area ∈ state.facts) :
    ∃ world, state.worlds[id]? = some world ∧ world.areas.has area = true ∧
      player.Settled options id world ∧
      WorldLedger starting options state.spheres.flatten id player.world world := by
  rcases hreached with ⟨world, hworld, harea⟩
  rcases hexhausted hplayer with ⟨settled, hsettled, hdone⟩
  cases hworld.symm.trans hsettled
  exact ⟨world, hworld, harea, hdone, hledger.books hplayer hworld⟩

/-- When nothing more can be reached and the items can be counted, what follows by a rule is
reached if it exists. -/
theorem mem_facts_of_enabled
    (hexists : ∀ {location : Location} {placed : PlayerItem},
      location ∈ state.spheres.flatten → options.collected? location = some placed →
        pathfinder.hasLocation location = true)
    (hledger : pathfinder.Ledger (pathfinder.startingOf options) options state)
    (hstart : ∀ {id : WorldId} {player : Player} {area : AreaId},
      pathfinder.players[id]? = some player → IsStart start? player.world area →
      area < player.world.areas.length → Fact.area id area ∈ state.facts)
    (hgiven : ∀ {id : WorldId} {player : Player} {event : EventId},
      pathfinder.players[id]? = some player →
      event ∈ (pathfinder.startingOf options).eventsOf id → Fact.event id event ∈ state.facts)
    (hexhausted : pathfinder.Exhausted options state)
    (hcountable : pathfinder.Countable options state.facts) {fact : Fact}
    (henabled : pathfinder.Enabled start? options state.facts fact)
    (hfact : pathfinder.HasFact fact) : fact ∈ state.facts := by
  have hopens : ∀ {id : WorldId} {player : Player} {world : WorldState} {gate : Gate},
      pathfinder.players[id]? = some player →
      state.worlds[id]? = some world →
      gate.requirement.Holds (pathfinder.known options state.facts id player) →
      world.opens player.settings gate = true := by
    intro id player world gate hplayer hworld hholds
    rw [WorldState.opens_iff,
      reading_eq_known hexists hledger hplayer hworld (hcountable hplayer)]
    exact hholds
  cases henabled with
  | start hplayer harea =>
      rcases hfact with ⟨player, hother, hlt⟩
      cases hplayer.symm.trans hother
      exact hstart hplayer harea hlt
  | given hplayer hevent => exact hgiven hplayer hevent
  | exit hplayer hentry hreached hgate hholds =>
      rcases hexhausted.exists_world hledger hplayer hreached with
        ⟨world, hworld, harea, hdone, hbooks⟩
      rcases hfact with ⟨player, hother, hlt⟩
      cases hplayer.symm.trans hother
      exact ⟨world, hworld, hdone.closed.exits hentry harea hgate
        (hopens hplayer hworld hholds) (hbooks.areas ▸ hlt)⟩
  | event hplayer hentry hreached hgate hholds =>
      rcases hexhausted.exists_world hledger hplayer hreached with
        ⟨world, hworld, harea, hdone, hbooks⟩
      rcases hfact with ⟨player, hother, hlt⟩
      cases hplayer.symm.trans hother
      exact ⟨world, hworld, hdone.closed.events hentry harea hgate
        (hopens hplayer hworld hholds) (hbooks.events ▸ hlt)⟩
  | location hplayer hentry hreached hgate hholds hallowed =>
      rcases hexhausted.exists_world hledger hplayer hreached with
        ⟨world, hworld, harea, hdone, hbooks⟩
      have hwithin :=
        SearchState.facts_subset_iff.mp (Set.Subset.refl state.facts) _ world hworld
      apply hwithin.locations
      refine hdone.locations hentry harea hgate (hopens hplayer hworld hholds) hallowed ?_
      rcases hasLocation_iff.mp hfact with ⟨player, hother, hlt⟩
      cases hplayer.symm.trans hother
      rw [hbooks.locations]
      exact hlt

/-- In linked worlds, when nothing more can be reached and the items can be counted, the facts
are closed under the rules. -/
theorem ruleClosed_facts (hlinked : ∀ player ∈ pathfinder.players, player.world.Linked)
    (hledger : pathfinder.Ledger (pathfinder.startingOf options) options state)
    (hstart : ∀ {id : WorldId} {player : Player} {area : AreaId},
      pathfinder.players[id]? = some player → IsStart start? player.world area →
      Fact.area id area ∈ state.facts)
    (hgiven : ∀ {id : WorldId} {player : Player} {event : EventId},
      pathfinder.players[id]? = some player →
      event ∈ (pathfinder.startingOf options).eventsOf id → Fact.event id event ∈ state.facts)
    (hexhausted : pathfinder.Exhausted options state)
    (hcountable : pathfinder.Countable options state.facts) :
    pathfinder.RuleClosed start? options state.facts := by
  intro fact henabled
  have hfact := hasFact_of_enabled hlinked
    (fun hplayer hevent => hledger.hasFact_of_mem (hgiven hplayer hevent)) henabled
  exact mem_facts_of_enabled (fun hmem _ => hledger.hasLocation_of_mem hlinked hmem) hledger
    (fun hplayer harea _ => hstart hplayer harea) hgiven hexhausted hcountable henabled hfact

/-- The facts of one world, listed. -/
def factsIn (entry : WorldState × WorldId) : List Fact :=
  entry.1.areas.toList.map (Fact.area entry.2) ++ entry.1.events.toList.map (Fact.event entry.2) ++
    entry.1.locations.toList.map fun check => Fact.location ⟨entry.2, check⟩

theorem finite_facts (state : SearchState) : state.facts.Finite := by
  refine (List.finite_toSet (state.worlds.zipIdx.flatMap factsIn)).subset ?_
  rw [SearchState.facts_subset_iff]
  intro id world hworld
  have hentry : (world, id) ∈ state.worlds.zipIdx := List.mk_mem_zipIdx_iff_getElem?.mpr hworld
  have hmem : ∀ fact ∈ factsIn (world, id), fact ∈ state.worlds.zipIdx.flatMap factsIn :=
    fun fact hfact => List.mem_flatMap.mpr ⟨_, hentry, hfact⟩
  constructor
  · intro area harea
    apply hmem
    simp [factsIn, harea]
  · intro event hevent
    apply hmem
    simp [factsIn, hevent]
  · intro check hcheck
    apply hmem
    simp [factsIn, hcheck]

/-! ## Searches to their ends -/

section Runs

variable (hlinked : ∀ player ∈ pathfinder.players, player.world.Linked)
include hlinked

/-- A search stays within facts that are closed under its rules. -/
theorem Runs.facts_subset (hpositive : ∀ player ∈ pathfinder.players, player.world.Positive)
    {count : Nat} (hruns : pathfinder.Runs start? options state count)
    (hclosed : pathfinder.RuleClosed start? options reached) :
    ((pathfinder.round options)^[count + 1] state).facts ⊆ reached := by
  have hbegins := begins_of_begin hruns.begins
  exact facts_iterate_subset hclosed hpositive hlinked (hbegins.ledger options)
    (hbegins.facts_subset hclosed) (count + 1)

/-- A search to its end reaches facts that are closed under its rules. -/
theorem Runs.ruleClosed (haccepts : pathfinder.Accepts start? options)
    (hstop : options.stopAtGoal = false) {count : Nat}
    (hruns : pathfinder.Runs start? options state count)
    (hcountable : pathfinder.Countable options
      ((pathfinder.round options)^[count + 1] state).facts) :
    pathfinder.RuleClosed start? options ((pathfinder.round options)^[count + 1] state).facts := by
  have hbegins := begins_of_begin hruns.begins
  have hledger := hbegins.ledger options
  have hgrows := facts_subset_of_le (le_iterate options hbegins.length (Nat.zero_le (count + 1)))
  have hprogress := hruns.halts.resolve_left fun hgoal => by simp [hstop] at hgoal
  refine ruleClosed_facts hlinked (hledger.iterate (count + 1)) ?_ ?_ ?_ hcountable
  · exact fun hplayer hstart => hgrows (hbegins.reaches_start hlinked hplayer hstart)
  · exact fun hplayer hgiven => hgrows (hbegins.reaches_given haccepts hplayer hgiven)
  · rw [Function.iterate_succ_apply']
    exact exhausted_round hlinked (hledger.iterate count) hprogress

/-- A search to its end reaches the least set of facts that is closed under its rules. -/
theorem Runs.isLeast_facts (hpositive : ∀ player ∈ pathfinder.players, player.world.Positive)
    (haccepts : pathfinder.Accepts start? options) (hstop : options.stopAtGoal = false)
    {count : Nat} (hruns : pathfinder.Runs start? options state count)
    (hcountable : pathfinder.Countable options
      ((pathfinder.round options)^[count + 1] state).facts) :
    IsLeast {reached | pathfinder.RuleClosed start? options reached}
      ((pathfinder.round options)^[count + 1] state).facts :=
  ⟨hruns.ruleClosed hlinked haccepts hstop hcountable,
    fun _ hclosed => hruns.facts_subset hlinked hpositive hclosed⟩

end Runs

/-- A finite set of facts that is the least one closed under the rules is what finitely many
steps derive. -/
theorem mem_iff_derivable_of_isLeast
    (hpositive : ∀ player ∈ pathfinder.players, player.world.Positive)
    (hleast : IsLeast {reached | pathfinder.RuleClosed start? options reached} reached)
    (hfinite : reached.Finite) {fact : Fact} :
    fact ∈ reached ↔ pathfinder.Derivable start? options fact := by
  have hderivable : {fact | pathfinder.Derivable start? options fact} ⊆ reached := by
    rintro fact ⟨facts, hderived, hmem⟩
    exact hderived.subset hpositive hleast.1 fact hmem
  constructor
  · exact fun hfact =>
      hleast.2 (ruleClosed_derivable hpositive (hfinite.subset hderivable)) hfact
  · exact fun hfact => hderivable hfact

/-- A search to its end in built worlds with positive requirements reaches the least
set of facts that is closed under the rules: what finitely many steps derive.  The
items that a player has in the end are those known by these facts.  All this is so if no
player has too many of any item in the end to be counted in 32 bits. -/
theorem run_reaches_least_fixpoint
    (hbuilt : ∀ player ∈ pathfinder.players, player.world.Built)
    (hpositive : ∀ player ∈ pathfinder.players, player.world.Positive)
    (haccepts : pathfinder.Accepts start? options) (hstop : options.stopAtGoal = false) :
    ∃ search, pathfinder.run start? options = .ok search ∧
      (pathfinder.Countable options search.state.facts →
        IsLeast {reached | pathfinder.RuleClosed start? options reached} search.state.facts ∧
        (∀ fact, fact ∈ search.state.facts ↔ pathfinder.Derivable start? options fact) ∧
        ∀ id player, pathfinder.players[id]? = some player →
          ∃ world, search.state.worlds[id]? = some world ∧ ∀ item, world.inventory.count item =
            (pathfinder.known options search.state.facts id player).count item) := by
  have hlinked : ∀ player ∈ pathfinder.players, player.world.Linked :=
    fun player hplayer => (hbuilt player hplayer).linked
  rcases exists_run_of_accepts haccepts with ⟨state, count, hruns, hrun⟩
  refine ⟨_, hrun, fun hcountable => ?_⟩
  have hleast := hruns.isLeast_facts hlinked hpositive haccepts hstop hcountable
  have hledger := ((begins_of_begin hruns.begins).ledger options).iterate (count + 1)
  refine ⟨hleast, fun fact =>
    mem_iff_derivable_of_isLeast hpositive hleast (finite_facts _), fun id player hplayer => ?_⟩
  rcases hledger.worlds hplayer with ⟨world, hworld, -⟩
  refine ⟨world, hworld, fun item => ?_⟩
  rw [inventory_count_eq hlinked hledger hplayer hworld, Nat.mod_eq_of_lt (hcountable hplayer item)]

/-- There are few swords in the meadow. -/
theorem countable_meadow (reached : Set Fact) :
    meadowSolver.Countable meadowOptions reached := by
  refine countable_of_lt (fun {id player} hplayer => ?_) reached
  obtain rfl : id = 0 := by simpa [meadowSolver] using (List.getElem?_eq_some_iff.mp hplayer).1
  decide

theorem run_meadow_reaches_least_fixpoint :
    ∃ search, meadowSolver.run none meadowOptions = .ok search ∧
      IsLeast {reached | meadowSolver.RuleClosed none meadowOptions reached}
        search.state.facts := by
  have hpositive : ∀ player ∈ meadowSolver.players, player.world.Positive := by decide
  rcases run_reaches_least_fixpoint built_meadowSolver hpositive accepts_meadow rfl with
    ⟨search, hrun, hsearch⟩
  exact ⟨search, hrun, (hsearch (countable_meadow _)).1⟩

end Pathfinder

end SeedLogic
