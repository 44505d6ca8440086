import SeedLogic.Proofs.Pathfinder.Goals
import SeedLogic.Proofs.World.Widening

/-!
# Wider searches reach no less

A search is wider than another when its worlds, start areas, starting items, events and
placement have everything that the other's have, and it forbids no more (`Widens`).  The
two may go through different rounds, so that their states cannot be compared one by one.
But what the wider one has reached in the end, with no more items than can be counted, is
closed under the rules of the other (`Widens.ruleClosed`), which therefore stays within it
(`run_monotone`).  A count that wraps around can cost the wider one a location
(`run_loses_vault`).
-/

namespace SeedLogic

namespace Pathfinder

/-- A player has a wider world, with the same settings, and starts wherever the other
one does. -/
structure PlayerWidens (start? : Option (List String)) (narrow : Player)
    (starts? : Option (List String)) (wide : Player) : Prop where
  world : narrow.world ≤ wide.world
  settings : wide.settings = narrow.settings
  starts : ∀ {area}, IsStart start? narrow.world area → IsStart starts? wide.world area

/-- A search has everything that another one goes by, and possibly more. -/
structure Widens (pathfinder : Pathfinder) (start? : Option (List String))
    (options : SearchOptions) (wider : Pathfinder) (starts? : Option (List String))
    (other : SearchOptions) : Prop where
  players : List.Forall₂ (PlayerWidens start? · starts? ·) pathfinder.players wider.players
  items : ∀ id item,
    (pathfinder.startingOf options).count id item ≤ (wider.startingOf other).count id item
  events : ∀ id, (pathfinder.startingOf options).eventsOf id ⊆ (wider.startingOf other).eventsOf id
  placed : ∀ location placed,
    options.placed? location = some placed → other.placed? location = some placed
  forbidden : other.forbidden ⊆ options.forbidden

variable {pathfinder wider : Pathfinder} {start? starts? : Option (List String)}
  {options other : SearchOptions} {reached : Set Fact}

section Widens

variable (hwidens : pathfinder.Widens start? options wider starts? other)
include hwidens

theorem Widens.exists_player {id : WorldId} {narrow : Player}
    (hplayer : pathfinder.players[id]? = some narrow) :
    ∃ wide, wider.players[id]? = some wide ∧ PlayerWidens start? narrow starts? wide := by
  rcases List.getElem?_eq_some_iff.mp hplayer with ⟨hlt, rfl⟩
  have hlt' : id < wider.players.length := hwidens.players.length_eq ▸ hlt
  exact ⟨wider.players[id], List.getElem?_eq_getElem hlt',
    (List.forall₂_iff_get.mp hwidens.players).2 id hlt hlt'⟩

/-- What exists for a search exists for a wider one. -/
theorem Widens.hasFact {fact : Fact} (hfact : pathfinder.HasFact fact) : wider.HasFact fact := by
  cases fact with
  | area id area =>
      rcases hfact with ⟨narrow, hplayer, hlt⟩
      rcases hwidens.exists_player hplayer with ⟨wide, hwide, hwider⟩
      exact ⟨wide, hwide, Nat.lt_of_lt_of_le hlt (World.length_areas_le hwider.world)⟩
  | event id event =>
      rcases hfact with ⟨narrow, hplayer, hlt⟩
      rcases hwidens.exists_player hplayer with ⟨wide, hwide, hwider⟩
      exact ⟨wide, hwide, Nat.lt_of_lt_of_le hlt hwider.world.events⟩
  | location location =>
      rcases hasLocation_iff.mp hfact with ⟨narrow, hplayer, hlt⟩
      rcases hwidens.exists_player hplayer with ⟨wide, hwide, hwider⟩
      exact hasLocation_iff.mpr ⟨wide, hwide, Nat.lt_of_lt_of_le hlt hwider.world.checks⟩

variable (hrecursive : other.recursive = true)
include hrecursive

/-- What one search collects at a location, a wider recursive one collects as well. -/
theorem Widens.collected {location : Location} {placed : PlayerItem}
    (hcollected : options.collected? location = some placed) :
    other.collected? location = some placed := by
  rw [SearchOptions.collected?_eq] at hcollected
  split at hcollected
  case isTrue =>
    rw [SearchOptions.collected?_eq, if_pos hrecursive]
    exact hwidens.placed location placed hcollected
  case isFalse => cases hcollected

/-- By the same facts, no less is known in a wider search. -/
theorem Widens.known_le {id : WorldId} {narrow wide : Player}
    (hplayer : PlayerWidens start? narrow starts? wide) :
    pathfinder.known options reached id narrow ≤ wider.known other reached id wide := by
  constructor
  · intro item
    have hholding : holding options reached id item ⊆ holding other reached id item :=
      fun location hlocation => ⟨hlocation.1, hwidens.collected hrecursive hlocation.2⟩
    exact Nat.add_le_add (hwidens.items id item)
      (Set.ncard_le_ncard hholding (finite_holding reached id item))
  · exact fun event hevent => hevent
  · rw [known, known, hplayer.settings]

/-- Where a wider search reaches no less, no player has fewer items, if they can be counted. -/
theorem Widens.inventories {narrow wide : SearchState}
    (hlinked : ∀ player ∈ pathfinder.players, player.world.Linked)
    (hledger : pathfinder.Ledger (pathfinder.startingOf options) options narrow)
    (hvalid : wider.validate other = .ok ())
    (hbooks : wider.Ledger (wider.startingOf other) other wide)
    (hcountable : wider.Countable other wide.facts) (hfacts : narrow.facts ⊆ wide.facts) :
    List.Forall₂ (fun before after : WorldState =>
        ∀ item, before.inventory.count item ≤ after.inventory.count item)
      narrow.worlds wide.worlds := by
  refine List.forall₂_iff_get.mpr ⟨?_, fun id hid hid' item => ?_⟩
  · exact hledger.length.trans (hwidens.players.length_eq.trans hbooks.length.symm)
  · have hbefore := List.getElem?_eq_getElem hid
    have hafter := List.getElem?_eq_getElem hid'
    rcases Pathfinder.exists_player hledger.length hbefore with ⟨player, hplayer⟩
    rcases hwidens.exists_player hplayer with ⟨widePlayer, hwidePlayer, hwider⟩
    calc narrow.worlds[id].inventory.count item
        = (pathfinder.known options narrow.facts id player).count item % Inventory.modulus :=
          inventory_count_eq hlinked hledger hplayer hbefore item
      _ ≤ (pathfinder.known options narrow.facts id player).count item := Nat.mod_le _ _
      _ ≤ (wider.known other narrow.facts id widePlayer).count item :=
          (hwidens.known_le hrecursive hwider).count item
      _ ≤ (wider.known other wide.facts id widePlayer).count item :=
          (known_le_of_subset hfacts id widePlayer).count item
      _ = (wider.known other wide.facts id widePlayer).count item % Inventory.modulus :=
          (Nat.mod_eq_of_lt (hcountable hwidePlayer item)).symm
      _ = wide.worlds[id].inventory.count item :=
          (inventory_count_eq_of_exists (fun _ => hasLocation_of_collected? hvalid) hbooks
            hwidePlayer hafter item).symm

/-- An area of a world is found, wider, in the wider world, where the positive requirements
that hold still do. -/
theorem Widens.exists_area {id : WorldId} {narrow : Player}
    (hplayer : pathfinder.players[id]? = some narrow) {entry : Area × AreaId}
    (hentry : entry ∈ narrow.world.areas.zipIdx) :
    ∃ wide area, wider.players[id]? = some wide ∧ (area, entry.2) ∈ wide.world.areas.zipIdx ∧
      entry.1 ≤ area ∧ ∀ {requirement : Requirement}, requirement.Positive →
        requirement.Holds (pathfinder.known options reached id narrow) →
          requirement.Holds (wider.known other reached id wide) := by
  rcases hwidens.exists_player hplayer with ⟨wide, hwide, hwider⟩
  rcases World.exists_entry_of_le hwider.world hentry with ⟨area, harea, hle⟩
  exact ⟨wide, area, hwide, harea, hle, fun hpositive hholds =>
    hpositive.holds_of_le (hwidens.known_le hrecursive hwider) hholds⟩

variable (hpositive : ∀ player ∈ pathfinder.players, player.world.Positive)
include hpositive

/-- Under positive requirements, a rule of a search is one of a wider search. -/
theorem Widens.enabled {fact : Fact}
    (henabled : pathfinder.Enabled start? options reached fact) :
    wider.Enabled starts? other reached fact := by
  cases henabled with
  | start hplayer hstart =>
      rcases hwidens.exists_player hplayer with ⟨wide, hwide, hwider⟩
      exact .start hwide (hwider.starts hstart)
  | given hplayer hgiven =>
      rcases hwidens.exists_player hplayer with ⟨wide, hwide, -⟩
      exact .given hwide (hwidens.events _ hgiven)
  | exit hplayer hentry hreached hgate hholds =>
      have hgates := (positive_of_entry hpositive hplayer hentry).exits _ hgate
      rcases hwidens.exists_area hrecursive hplayer hentry with
        ⟨wide, area, hwide, harea, hle, hstill⟩
      exact .exit hwide harea hreached (hle.exits hgate) (hstill hgates hholds)
  | event hplayer hentry hreached hgate hholds =>
      have hgates := (positive_of_entry hpositive hplayer hentry).events _ hgate
      rcases hwidens.exists_area hrecursive hplayer hentry with
        ⟨wide, area, hwide, harea, hle, hstill⟩
      exact .event hwide harea hreached (hle.events hgate) (hstill hgates hholds)
  | location hplayer hentry hreached hgate hholds hallowed =>
      have hgates := (positive_of_entry hpositive hplayer hentry).locations _ hgate
      rcases hwidens.exists_area hrecursive hplayer hentry with
        ⟨wide, area, hwide, harea, hle, hstill⟩
      exact .location hwide harea hreached (hle.locations hgate) (hstill hgates hholds)
        fun hforbidden => hallowed (hwidens.forbidden hforbidden)

/-- Facts that have what exists and follows in a wider search are closed under the rules of
the narrower one. -/
theorem Widens.ruleClosed (hlinked : ∀ player ∈ pathfinder.players, player.world.Linked)
    (haccepts : pathfinder.Accepts start? options)
    (hclosed : ∀ {fact}, wider.Enabled starts? other reached fact → wider.HasFact fact →
      fact ∈ reached) :
    pathfinder.RuleClosed start? options reached := by
  intro fact henabled
  have hfact := hasFact_of_enabled hlinked
    (fun hplayer hgiven => ⟨_, hplayer, haccepts.lt_of_given hplayer hgiven⟩) henabled
  exact hclosed (hwidens.enabled hrecursive hpositive henabled) (hwidens.hasFact hfact)

end Widens

/-- A search to its end, if its items can be counted, has reached what exists and follows from
what it has reached, whatever its requirements. -/
theorem Runs.mem_facts_of_enabled (haccepts : pathfinder.Accepts start? options)
    (hstop : options.stopAtGoal = false) {state : SearchState} {count : Nat}
    (hruns : pathfinder.Runs start? options state count)
    (hcountable :
      pathfinder.Countable options ((pathfinder.round options)^[count + 1] state).facts)
    {fact : Fact} (henabled : pathfinder.Enabled start? options
      ((pathfinder.round options)^[count + 1] state).facts fact)
    (hfact : pathfinder.HasFact fact) :
    fact ∈ ((pathfinder.round options)^[count + 1] state).facts := by
  have hvalid := validate_of_accepts haccepts
  have hbegins := begins_of_begin hruns.begins
  have hledger := hbegins.ledger options
  have hgrows := facts_subset_of_le (le_iterate options hbegins.length (Nat.zero_le (count + 1)))
  have hprogress := hruns.halts.resolve_left fun hgoal => by simp [hstop] at hgoal
  refine Pathfinder.mem_facts_of_enabled (fun _ => hasLocation_of_collected? hvalid)
    (hledger.iterate (count + 1)) ?_ ?_ ?_ hcountable henabled hfact
  · exact fun hplayer hstart hlt => hgrows (hbegins.reaches_start_of_lt hplayer hstart hlt)
  · exact fun hplayer hgiven => hgrows (hbegins.reaches_given haccepts hplayer hgiven)
  · -- The last round may find what does not exist, but it collects nothing there.
    rw [Function.iterate_succ_apply']
    exact exhausted_of_progress_eq (hledger.iterate count) (hasLocation_of_collected? hvalid)
      hprogress

/-- A recursive search to its end reaches every area, event and location that a narrower
search reaches, with no fewer items, and meets a goal of events that the other one meets,
if none of its players has too many of any item in the end to be counted in 32 bits.
The narrower search may be of any kind, but its requirements are positive; those that the
wider worlds add need not be. -/
theorem run_monotone
    (hbuilt : ∀ player ∈ pathfinder.players, player.world.Built)
    (hpositive : ∀ player ∈ pathfinder.players, player.world.Positive)
    (haccepts : pathfinder.Accepts start? options) (hwider : wider.Accepts starts? other)
    (hwidens : pathfinder.Widens start? options wider starts? other)
    (hrecursive : other.recursive = true) (hstop : other.stopAtGoal = false) :
    ∃ narrow wide, pathfinder.run start? options = .ok narrow ∧
      wider.run starts? other = .ok wide ∧
      (wider.Countable other wide.state.facts →
        narrow.state.facts ⊆ wide.state.facts ∧
        List.Forall₂ (fun before after : WorldState =>
            ∀ item, before.inventory.count item ≤ after.inventory.count item)
          narrow.state.worlds wide.state.worlds ∧
        ∀ events, pathfinder.goal = .events events → wider.goal = .events events →
          narrow.state.goal = true → wide.state.goal = true) := by
  have hlinked : ∀ player ∈ pathfinder.players, player.world.Linked :=
    fun player hplayer => (hbuilt player hplayer).linked
  rcases exists_run_of_accepts haccepts with ⟨first, early, hearly, hrun⟩
  rcases exists_run_of_accepts hwider with ⟨second, late, hlate, hwide⟩
  refine ⟨_, _, hrun, hwide, fun hcountable => ?_⟩
  -- The rounds are not compared: the end of the wider search bounds all of the narrower one.
  have hclosed := hwidens.ruleClosed hrecursive hpositive hlinked haccepts
    (hlate.mem_facts_of_enabled hwider hstop hcountable)
  have hfacts := hearly.facts_subset hlinked hpositive hclosed
  have hitems := hwidens.inventories hrecursive hlinked (ledger_of_run hrun)
    (validate_of_accepts hwider) (ledger_of_run hwide) hcountable hfacts
  refine ⟨hfacts, hitems, fun events hgoal hgoal' hmet => ?_⟩
  rw [goal_iff_of_run hgoal hrun] at hmet
  rw [goal_iff_of_run hgoal' hwide]
  exact fun entry hentry => hfacts (hmet entry hentry)

/-! ## A wider meadow -/

/-- A player of the meadow who is to open the cave. -/
def caveSolver : Pathfinder :=
  meadowSolver.withGoal (.events [(0, 0)])

/-- A search that starts with nothing, finds a sword in the chest, and may not look into
the pool. -/
def scarceOptions : SearchOptions :=
  { SearchOptions.plain with
    items? := some (Placement.empty.insert ⟨0, 0⟩ ⟨0, 0⟩)
    starting? := some (.none 1)
    recursive := true
    forbidden := [⟨0, 1⟩] }

/-- The meadow when the cave is open from the beginning. -/
def openMeadow : World :=
  World.meadow.withArea 1 fun area => { area with exits := area.exits ++ [⟨0, .const true⟩] }

/-- The same player, who moreover gets at the pool without the event. -/
def openCaveSolver : Pathfinder :=
  caveSolver.withWorld 0 <| openMeadow.withArea 0 fun area =>
    { area with locations := area.locations ++ [⟨1, .not (.hasEvent 0)⟩] }

theorem widens_openCaveSolver :
    caveSolver.Widens none scarceOptions openCaveSolver (some ["OOT Cave", "OOT Meadow"])
      meadowOptions := by
  constructor
  · refine .cons ⟨World.le_trans (World.le_withArea _ 1 fun area => ?_)
      (World.le_withArea _ 0 fun area => ?_), rfl, fun {area} hstart => ?_⟩ .nil
    · exact ⟨List.Subset.refl _, List.subset_append_left _ _, List.Subset.refl _⟩
    · exact ⟨List.subset_append_left _ _, List.Subset.refl _, List.Subset.refl _⟩
    · obtain rfl : area = 1 := List.mem_singleton.mp hstart
      exact ⟨"OOT Meadow", by decide, rfl⟩
  · intro id item
    have hnothing : (caveSolver.startingOf scarceOptions).count id item = 0 := by
      cases id <;> rfl
    rw [hnothing]
    exact Nat.zero_le _
  · intro id
    have hnothing : (caveSolver.startingOf scarceOptions).eventsOf id = [] := by
      cases id <;> rfl
    rw [hnothing]
    exact List.nil_subset _
  · intro location placed hplaced
    cases List.mem_singleton.mp (Dict.mem_of_lookup?_eq_some hplaced)
    rfl
  · exact List.nil_subset _

theorem countable_openCave (reached : Set Fact) :
    openCaveSolver.Countable meadowOptions reached := by
  refine countable_of_lt (fun {id player} hplayer => ?_) reached
  obtain rfl : id = 0 := by
    simpa [openCaveSolver, caveSolver, meadowSolver, withGoal, withWorld] using
      (List.getElem?_eq_some_iff.mp hplayer).1
  decide

theorem run_monotone_meadow :
    ∃ narrow wide, caveSolver.run none scarceOptions = .ok narrow ∧
      openCaveSolver.run (some ["OOT Cave", "OOT Meadow"]) meadowOptions = .ok wide ∧
      narrow.state.facts ⊆ wide.state.facts ∧
      narrow.state.goal = true ∧ wide.state.goal = true := by
  have hbuilt : ∀ player ∈ caveSolver.players, player.world.Built := built_meadowSolver
  have hpositive : ∀ player ∈ caveSolver.players, player.world.Positive := by decide
  have hgoal : ∀ narrow, caveSolver.run none scarceOptions = .ok narrow →
      narrow.state.goal = true := by
    intro narrow hrun
    cases hrun
    rfl
  rcases run_monotone hbuilt hpositive (accepts_iff.mpr ⟨rfl, _, rfl⟩)
    (accepts_iff.mpr ⟨rfl, _, rfl⟩) widens_openCaveSolver rfl rfl with
    ⟨narrow, wide, hnarrow, hwide, hmonotone⟩
  rcases hmonotone (countable_openCave _) with ⟨hfacts, -, hgoals⟩
  have hmet := hgoal narrow hnarrow
  exact ⟨narrow, wide, hnarrow, hwide, hfacts, hmet, hgoals [(0, 0)] rfl rfl hmet⟩

/-! ## A hall with a vault

A key and a sword lie in the open, and the vault takes both. -/

/-- The table of the hall. -/
def hallTable : GameTable :=
  { GameTable.bare .oot with
    start := ["Hall"]
    areas := .ofList [
      ("Hall",
        { RawArea.bare with
          locations := .ofList
            [("Drawer", "true"), ("Shelf", "true"), ("Vault", "KEY & SWORD")] })]
    pool := [⟨"Drawer", .numeric .chest, "HALL", .number 0, "KEY"⟩,
      ⟨"Shelf", .numeric .chest, "HALL", .number 1, "SWORD"⟩,
      ⟨"Vault", .numeric .chest, "HALL", .number 2, "SWORD"⟩] }

/-- The world that is built from it. -/
def hall : World where
  areas := [
    ⟨"OOT Hall", .oot, none,
      [⟨0, .const true⟩, ⟨1, .const true⟩, ⟨2, .and [.hasItem 0 1, .hasItem 1 1]⟩], [], [], []⟩]
  checks := [
    ⟨"OOT Drawer", .oot, "OOT_HALL", "OOT_KEY", .numeric .chest 0, .anywhere, none⟩,
    ⟨"OOT Shelf", .oot, "OOT_HALL", "OOT_SWORD", .numeric .chest 1, .anywhere, none⟩,
    ⟨"OOT Vault", .oot, "OOT_HALL", "OOT_SWORD", .numeric .chest 2, .anywhere, none⟩]
  gossips := []
  dungeons := .empty
  starts := [0]
  symbols := ⟨⟨["OOT_KEY", "OOT_SWORD"], by decide⟩, .empty, .empty⟩

theorem built_hall : hall.Built :=
  ⟨[hallTable], .empty, fun _ => .anywhere, rfl⟩

/-- A player in the hall who starts with some swords. -/
def hallSolver (swords : Nat) : Pathfinder where
  players := [⟨hall, ⟨#[]⟩⟩]
  starting := ⟨[[(1, swords)]], [[]]⟩
  goal := .never

/-- A search that leaves every item of the hall in its place. -/
def hallOptions : SearchOptions :=
  { SearchOptions.plain with items? := some (.vanilla [hall]), recursive := true }

theorem count_hallSolver (swords : Nat) (id : WorldId) (item : ItemId) :
    ((hallSolver swords).startingOf hallOptions).count id item =
      if id = 0 ∧ item = 1 then swords else 0 := by
  change (StartingItems.mk [[(1, swords)]] [[]]).count id item = _
  cases id with
  | zero =>
      by_cases hitem : item = 1
      · subst hitem
        rfl
      · simp [StartingItems.count, StartingItems.itemsOf, hitem, Ne.symm hitem]
  | succ id => simp [StartingItems.count, StartingItems.itemsOf]

/-- To start with more swords is to start with more. -/
theorem widens_hallSolver {fewer more : Nat} (hle : fewer ≤ more) :
    (hallSolver fewer).Widens none hallOptions (hallSolver more) none hallOptions := by
  refine ⟨.cons ⟨hall.le_refl, rfl, id⟩ .nil, fun id item => ?_, fun id => List.Subset.refl _,
    fun _ _ => id, List.Subset.refl _⟩
  rw [count_hallSolver, count_hallSolver]
  split
  · exact hle
  · exact Nat.le_refl _

/-- Who starts with one sword gets into the vault.  Who starts with as many as can be counted
takes one more from the shelf together with the key, and then has none. -/
theorem run_loses_vault :
    (hall.Built ∧ hall.Positive) ∧
    (hallSolver 1).Widens none hallOptions (hallSolver 4294967295) none hallOptions ∧
    hallOptions.recursive = true ∧ hallOptions.stopAtGoal = false ∧
    ∃ narrow wide, (hallSolver 1).run none hallOptions = .ok narrow ∧
      (hallSolver 4294967295).run none hallOptions = .ok wide ∧
      narrow.state.isReached ⟨0, 2⟩ = true ∧ wide.state.isReached ⟨0, 2⟩ = false :=
  ⟨⟨built_hall, by decide⟩, widens_hallSolver (by decide), rfl, rfl, _, _, rfl, rfl, rfl, rfl⟩

end Pathfinder

end SeedLogic
