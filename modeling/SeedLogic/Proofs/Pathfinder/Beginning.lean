import SeedLogic.Proofs.Outcome
import SeedLogic.Proofs.Pathfinder.Rounds
import SeedLogic.Proofs.World.Linked

/-!
# The beginning of a search

A search whose options speak of nothing that does not exist, and in which every
player has somewhere to start, is run (`exists_run_of_accepts`), and no other is
(`accepts_iff`).  It begins with the start areas, the starting items and the starting
events of each player, and with nothing else (`Begun`), and is a number of rounds from
there (`run_eq_ok_iff`).
-/

namespace SeedLogic

/-- How many of an item a player starts with. -/
def StartingItems.count (starting : StartingItems) (id : WorldId) (item : ItemId) : Nat :=
  (((starting.itemsOf id).filter fun entry => entry.1 = item).map Prod.snd).sum

namespace Pathfinder

/-- What the players of a search start with. -/
def startingOf (pathfinder : Pathfinder) (options : SearchOptions) : StartingItems :=
  options.starting?.getD pathfinder.starting

/-- Is the area one to start from? -/
def IsStart (start? : Option (List String)) (world : World) (area : AreaId) : Prop :=
  match start? with
  | none => area ∈ world.starts
  | some names => ∃ name ∈ names, world.areaId? name = some area

/-- Everything that the start and the options of a search speak of exists, and every
player has a start area. -/
structure Accepts (pathfinder : Pathfinder) (start? : Option (List String))
    (options : SearchOptions) : Prop where
  placement : ∀ placement, options.items? = some placement → ∀ entry ∈ placement.items.entries,
    pathfinder.hasLocation entry.1 = true ∧ pathfinder.hasItem entry.2 = true
  forbidden : ∀ location ∈ options.forbidden, pathfinder.hasLocation location = true
  items : ∀ id entries, (pathfinder.startingOf options).items[id]? = some entries →
    ∃ world, pathfinder.world? id = some world ∧ ∀ entry ∈ entries, entry.1 < world.itemCount
  events : ∀ id events, (pathfinder.startingOf options).events[id]? = some events →
    ∃ world, pathfinder.world? id = some world ∧ ∀ event ∈ events, event < world.eventCount
  names : ∀ names, start? = some names → ∀ player ∈ pathfinder.players, ∀ name ∈ names,
    ∃ area, player.world.areaId? name = some area
  start : ∀ player ∈ pathfinder.players, ∃ area, IsStart start? player.world area

variable {pathfinder : Pathfinder} {start? : Option (List String)} {options : SearchOptions}

/-! ## Validation -/

theorem hasLocation_iff {location : Location} :
    pathfinder.hasLocation location = true ↔
      ∃ player, pathfinder.players[location.world]? = some player ∧
        location.check < player.world.checks.length := by
  rw [hasLocation, world?]
  cases pathfinder.players[location.world]? <;> simp

theorem getElem?_worlds (pathfinder : Pathfinder) (id : WorldId) :
    pathfinder.worlds[id]? = pathfinder.world? id := by
  simp [worlds, world?]

/-- What holds of each list and the world of its place, if there are enough worlds. -/
theorem forall_zip_worlds_iff {α : Type} {lists : List (List α)}
    {Holds : World → List α → Prop} :
    (lists.length ≤ pathfinder.worlds.length ∧
      ∀ entry ∈ (pathfinder.worlds.zip lists).zipIdx, Holds entry.1.1 entry.1.2) ↔
    ∀ id list, lists[id]? = some list →
      ∃ world, pathfinder.world? id = some world ∧ Holds world list := by
  constructor
  · rintro ⟨hlength, hall⟩ id list hlist
    have hlt := Nat.lt_of_lt_of_le (List.getElem?_eq_some_iff.mp hlist).1 hlength
    have hworld := List.getElem?_eq_getElem hlt
    have hentry : ((pathfinder.worlds[id], list), id) ∈ (pathfinder.worlds.zip lists).zipIdx :=
      List.mk_mem_zipIdx_iff_getElem?.mpr (List.getElem?_zip_eq_some.mpr ⟨hworld, hlist⟩)
    exact ⟨_, (getElem?_worlds pathfinder id).symm.trans hworld, hall _ hentry⟩
  · intro hall
    constructor
    · by_contra hsurplus
      have hlt : pathfinder.worlds.length < lists.length := by omega
      rcases hall _ _ (List.getElem?_eq_getElem hlt) with ⟨world, hworld, -⟩
      rw [← getElem?_worlds, List.getElem?_eq_none (Nat.le_refl _)] at hworld
      cases hworld
    · rintro ⟨⟨world, list⟩, id⟩ hentry
      rw [List.mk_mem_zipIdx_iff_getElem?, List.getElem?_zip_eq_some] at hentry
      rcases hall id list hentry.2 with ⟨other, hother, hholds⟩
      rw [← getElem?_worlds, hentry.1] at hother
      cases hother
      exact hholds

theorem validateItems_eq_ok_iff {entry : (World × List (ItemId × Nat)) × WorldId} :
    StartingItems.validateItems entry = .ok () ↔
      ∀ item ∈ entry.1.2, item.1 < entry.1.1.itemCount := by
  have hall : (entry.1.2.find? fun item => decide (entry.1.1.itemCount ≤ item.1)) = none ↔
      ∀ item ∈ entry.1.2, item.1 < entry.1.1.itemCount := by
    simp
  rw [← hall, StartingItems.validateItems]
  cases entry.1.2.find? fun item => decide (entry.1.1.itemCount ≤ item.1) <;> simp

theorem validateEvents_eq_ok_iff {entry : (World × List EventId) × WorldId} :
    StartingItems.validateEvents entry = .ok () ↔
      ∀ event ∈ entry.1.2, event < entry.1.1.eventCount := by
  have hall : (entry.1.2.find? fun event => decide (entry.1.1.eventCount ≤ event)) = none ↔
      ∀ event ∈ entry.1.2, event < entry.1.1.eventCount := by
    simp
  rw [← hall, StartingItems.validateEvents]
  cases entry.1.2.find? fun event => decide (entry.1.1.eventCount ≤ event) <;> simp

/-- Starting items are valid when all of a player's items and events exist in a world of
the player. -/
theorem validate_starting_eq_ok_iff {starting : StartingItems} :
    starting.validate pathfinder.worlds = .ok () ↔
      (∀ id entries, starting.items[id]? = some entries → ∃ world,
        pathfinder.world? id = some world ∧ ∀ entry ∈ entries, entry.1 < world.itemCount) ∧
      ∀ id events, starting.events[id]? = some events → ∃ world,
        pathfinder.world? id = some world ∧ ∀ event ∈ events, event < world.eventCount := by
  rw [← forall_zip_worlds_iff, ← forall_zip_worlds_iff, StartingItems.validate,
    StartingItems.players]
  split
  case isTrue hsurplus =>
    simp only [reduceCtorEq, false_iff]
    omega
  case isFalse hfit =>
    rcases Nat.max_le.mp (Nat.le_of_not_lt hfit) with ⟨hitems, hevents⟩
    simp only [Outcome.check_bind_eq_ok, Outcome.forM_eq_ok, validateItems_eq_ok_iff,
      validateEvents_eq_ok_iff, hitems, hevents, true_and]

theorem validateEntry_eq_ok_iff {entry : Location × PlayerItem} :
    pathfinder.validateEntry entry = .ok () ↔
      pathfinder.hasLocation entry.1 = true ∧ pathfinder.hasItem entry.2 = true := by
  unfold validateEntry
  cases pathfinder.hasLocation entry.1 <;> cases pathfinder.hasItem entry.2 <;> simp

theorem validateForbidden_eq_ok_iff {location : Location} :
    pathfinder.validateForbidden location = .ok () ↔
      pathfinder.hasLocation location = true := by
  unfold validateForbidden
  cases pathfinder.hasLocation location <;> simp

/-- Options are valid when their placement, their forbidden locations and their starting
items are. -/
theorem validate_eq_ok_iff :
    pathfinder.validate options = .ok () ↔
      (∀ placement, options.items? = some placement → ∀ entry ∈ placement.items.entries,
        pathfinder.hasLocation entry.1 = true ∧ pathfinder.hasItem entry.2 = true) ∧
      (∀ location ∈ options.forbidden, pathfinder.hasLocation location = true) ∧
      ∀ starting, options.starting? = some starting →
        starting.validate pathfinder.worlds = .ok () := by
  cases hitems : options.items? <;> cases hstarting : options.starting? <;>
    simp only [validate, hitems, hstarting, Outcome.check_bind_eq_ok, Outcome.forM_eq_ok,
      validateEntry_eq_ok_iff, validateForbidden_eq_ok_iff, Option.some.injEq, forall_eq',
      reduceCtorEq, false_implies, implies_true, true_and, and_true]

theorem validate_of_accepts (haccepts : pathfinder.Accepts start? options) :
    pathfinder.validate options = .ok () := by
  refine validate_eq_ok_iff.mpr ⟨haccepts.placement, haccepts.forbidden, fun starting hown => ?_⟩
  have heffective : pathfinder.startingOf options = starting := by
    simp [startingOf, hown]
  exact validate_starting_eq_ok_iff.mpr
    ⟨heffective ▸ haccepts.items, heffective ▸ haccepts.events⟩

/-- A valid placement puts items that exist at locations that exist. -/
theorem exists_of_placed? (hvalid : pathfinder.validate options = .ok ())
    {location : Location} {placed : PlayerItem}
    (hplaced : options.placed? location = some placed) :
    pathfinder.hasLocation location = true ∧ pathfinder.hasItem placed = true := by
  rcases Option.bind_eq_some_iff.mp hplaced with ⟨placement, hitems, hfound⟩
  have hentry := Dict.mem_of_lookup?_eq_some hfound
  exact (validate_eq_ok_iff.mp hvalid).1 placement hitems _ hentry

theorem hasLocation_of_collected? (hvalid : pathfinder.validate options = .ok ())
    {location : Location} {placed : PlayerItem}
    (hcollected : options.collected? location = some placed) :
    pathfinder.hasLocation location = true := by
  rw [SearchOptions.collected?_eq] at hcollected
  split at hcollected
  case isTrue => exact (exists_of_placed? hvalid hcollected).1
  case isFalse => cases hcollected

/-- Accepted events exist. -/
theorem Accepts.lt_of_given (haccepts : pathfinder.Accepts start? options) {id : WorldId}
    {player : Player} (hplayer : pathfinder.players[id]? = some player) {event : EventId}
    (hgiven : event ∈ (pathfinder.startingOf options).eventsOf id) :
    event < player.world.eventCount := by
  cases hevents : (pathfinder.startingOf options).events[id]? with
  | none => simp [StartingItems.eventsOf, hevents] at hgiven
  | some events =>
      rcases haccepts.events id events hevents with ⟨other, hother, hlt⟩
      simp only [world?, hplayer, Option.map_some, Option.some.injEq] at hother
      subst hother
      exact hlt event (by simpa [StartingItems.eventsOf, hevents] using hgiven)

/-- Start areas of linked worlds exist. -/
theorem lt_of_isStart {world : World} (hlinked : world.Linked) {area : AreaId}
    (hstart : IsStart start? world area) : area < world.areas.length := by
  cases start? with
  | none => exact hlinked.starts area hstart
  | some names =>
      rcases hstart with ⟨name, -, hid⟩
      exact (List.findIdx?_eq_some_iff_getElem.mp hid).1

/-! ## The first state -/

/-- A world in which only the start areas and the starting items and events are
reached. -/
structure Begun (start? : Option (List String)) (starting : StartingItems) (world : World)
    (id : WorldId) (state : WorldState) : Prop where
  sizes : state.areas.size = world.areas.length ∧ state.locations.size = world.checks.length ∧
    state.gossips.size = world.gossips.length ∧ state.events.size = world.eventCount
  areas : ∀ area, state.areas.has area = true ↔
    IsStart start? world area ∧ area < world.areas.length
  events : ∀ event, state.events.has event = true ↔
    event ∈ starting.eventsOf id ∧ event < world.eventCount
  locations : ∀ check, state.locations.has check = false
  gossips : ∀ gossip, state.gossips.has gossip = false
  count : ∀ item, state.inventory.count item = starting.count id item % Inventory.modulus

theorem mem_startAreas {world : World} {areas : List AreaId}
    (hareas : startAreas start? world = .ok areas) {area : AreaId} :
    area ∈ areas ↔ IsStart start? world area := by
  cases start? with
  | none =>
      cases hareas
      rfl
  | some names =>
      constructor
      · intro harea
        rcases Outcome.exists_of_mem_mapM hareas harea with ⟨name, hname, hid⟩
        refine ⟨name, hname, ?_⟩
        split at hid
        · cases hid
          assumption
        · cases hid
      · rintro ⟨name, hname, hid⟩
        rcases List.mem_iff_getElem?.mp hname with ⟨place, hplace⟩
        rcases Outcome.getElem?_mapM hareas hplace with ⟨result, hresult, hstep⟩
        rw [hid] at hstep
        cases hstep
        exact List.mem_of_getElem? hresult

theorem exists_startAreas {world : World}
    (hnames : ∀ names, start? = some names →
      ∀ name ∈ names, ∃ area, world.areaId? name = some area) :
    ∃ areas, startAreas start? world = .ok areas := by
  cases start? with
  | none => exact ⟨_, rfl⟩
  | some names =>
      refine Outcome.exists_mapM_of_forall fun name hname => ?_
      rcases hnames names rfl name hname with ⟨area, harea⟩
      exact ⟨area, by rw [harea]⟩

theorem begun_of_beginWorld {starting : StartingItems} {entry : Player × WorldId}
    {state : WorldState} (hbegin : beginWorld start? starting entry = .ok state) :
    Begun start? starting entry.1.world entry.2 state := by
  rcases Outcome.bind_eq_ok.mp hbegin with ⟨areas, hareas, hbegin⟩
  split at hbegin
  · cases hbegin
  · cases hbegin
    constructor
    · simp [WorldState.equip, WorldState.initial]
    · intro area
      simp [Flags.has_foldl_mark, WorldState.equip, WorldState.initial, mem_startAreas hareas]
    · intro event
      simp [Flags.has_foldl_mark, WorldState.equip, WorldState.initial]
    · simp [WorldState.equip, WorldState.initial]
    · simp [WorldState.equip, WorldState.initial]
    · intro item
      have hnone : (Inventory.empty entry.1.world.itemCount).count item < Inventory.modulus := by
        rw [Inventory.count_empty]
        exact Inventory.modulus_pos
      simpa [WorldState.equip, WorldState.initial, StartingItems.count] using
        Inventory.count_foldl_add (starting.itemsOf entry.2) hnone

/-- The state with which a search begins. -/
structure Begins (pathfinder : Pathfinder) (start? : Option (List String))
    (starting : StartingItems) (state : SearchState) : Prop where
  length : state.worlds.length = pathfinder.players.length
  worlds : ∀ {id player}, pathfinder.players[id]? = some player →
    ∃ world, state.worlds[id]? = some world ∧ Begun start? starting player.world id world
  spheres : state.spheres = []
  goal : state.goal = false

theorem begins_of_begin {starting : StartingItems} {state : SearchState}
    (hbegin : pathfinder.begin start? starting = .ok state) :
    pathfinder.Begins start? starting state := by
  rcases Outcome.bind_eq_ok.mp hbegin with ⟨worlds, hworlds, hbegin⟩
  cases hbegin
  refine ⟨?_, fun {id player} hplayer => ?_, rfl, rfl⟩
  · simpa using Outcome.length_of_mapM hworlds
  · have hentry : pathfinder.players.zipIdx[id]? = some (player, id) := by simp [hplayer]
    rcases Outcome.getElem?_mapM hworlds hentry with ⟨world, hworld, hstep⟩
    exact ⟨world, hworld, begun_of_beginWorld hstep⟩

/-- A world is begun when the names of start areas are known and there are any. -/
theorem exists_beginWorld_iff {starting : StartingItems} {entry : Player × WorldId} :
    (∃ state, beginWorld start? starting entry = .ok state) ↔
      (∀ names, start? = some names → ∀ name ∈ names,
        ∃ area, entry.1.world.areaId? name = some area) ∧
      ∃ area, IsStart start? entry.1.world area := by
  constructor
  · rintro ⟨state, hbegin⟩
    rcases Outcome.bind_eq_ok.mp hbegin with ⟨areas, hareas, hbegin⟩
    constructor
    · rintro names rfl name hname
      rcases List.mem_iff_getElem?.mp hname with ⟨place, hplace⟩
      rcases Outcome.getElem?_mapM hareas hplace with ⟨area, -, hstep⟩
      split at hstep
      case h_1 id hid => exact ⟨id, hid⟩
      case h_2 => cases hstep
    · split at hbegin
      case isTrue => cases hbegin
      case isFalse hany =>
        rcases List.exists_mem_of_ne_nil areas (mt List.isEmpty_iff.mpr hany) with ⟨area, harea⟩
        exact ⟨area, (mem_startAreas hareas).mp harea⟩
  · rintro ⟨hnames, area, harea⟩
    rcases exists_startAreas hnames with ⟨areas, hareas⟩
    have hnonempty : areas.isEmpty = false :=
      List.isEmpty_eq_false_iff_exists_mem.mpr ⟨area, (mem_startAreas hareas).mpr harea⟩
    unfold beginWorld
    rw [hareas]
    simp only [bind, Except.bind, hnonempty]
    exact ⟨_, rfl⟩

/-- A search begins when every world does. -/
theorem exists_begin_iff {starting : StartingItems} :
    (∃ state, pathfinder.begin start? starting = .ok state) ↔
      ∀ player ∈ pathfinder.players,
        (∀ names, start? = some names → ∀ name ∈ names,
          ∃ area, player.world.areaId? name = some area) ∧
        ∃ area, IsStart start? player.world area := by
  constructor
  · rintro ⟨state, hbegin⟩ player hplayer
    rcases Outcome.bind_eq_ok.mp hbegin with ⟨worlds, hworlds, -⟩
    rcases List.mem_iff_getElem?.mp hplayer with ⟨id, hid⟩
    have hentry : pathfinder.players.zipIdx[id]? = some (player, id) := by simp [hid]
    rcases Outcome.getElem?_mapM hworlds hentry with ⟨world, -, hworld⟩
    exact exists_beginWorld_iff.mp ⟨world, hworld⟩
  · intro hplayers
    obtain ⟨worlds, hworlds⟩ : ∃ worlds,
        pathfinder.players.zipIdx.mapM (beginWorld start? starting) = .ok worlds :=
      Outcome.exists_mapM_of_forall fun entry hentry =>
        exists_beginWorld_iff.mpr (hplayers entry.1 (List.fst_mem_of_mem_zipIdx hentry))
    exact ⟨⟨worlds, [], false⟩, Outcome.bind_eq_ok.mpr ⟨worlds, hworlds, rfl⟩⟩

theorem exists_begin_of_accepts (haccepts : pathfinder.Accepts start? options) :
    ∃ state, pathfinder.begin start? (pathfinder.startingOf options) = .ok state :=
  exists_begin_iff.mpr fun player hplayer =>
    ⟨fun names hnames => haccepts.names names hnames player hplayer,
      haccepts.start player hplayer⟩

/-! ## Runs -/

/-- From its beginning, a search goes on for `count` rounds, and one more that halts it. -/
structure Runs (pathfinder : Pathfinder) (start? : Option (List String)) (options : SearchOptions)
    (state : SearchState) (count : Nat) : Prop where
  begins : pathfinder.begin start? (pathfinder.startingOf options) = .ok state
  halts : pathfinder.Halts options ((pathfinder.round options)^[count] state)
  earlier : ∀ earlier < count,
    ¬pathfinder.Halts options ((pathfinder.round options)^[earlier] state)

/-- Every beginning is run to an end. -/
theorem exists_runs (options : SearchOptions) {state : SearchState}
    (hbegin : pathfinder.begin start? (pathfinder.startingOf options) = .ok state) :
    ∃ count, pathfinder.Runs start? options state count ∧
      pathfinder.rounds options (state.capacity + 1) 0 state =
        ⟨(pathfinder.round options)^[count + 1] state, count + 1⟩ := by
  have hfuel : state.capacity < state.progress + (state.capacity + 1) := by omega
  rcases rounds_eq_iterate options (begins_of_begin hbegin).length hfuel 0 with
    ⟨count, hrounds, hhalts, hearlier⟩
  rw [Nat.zero_add] at hrounds
  exact ⟨count, ⟨hbegin, hhalts, hearlier⟩, hrounds⟩

/-- A search halts once. -/
theorem Runs.count_eq {state : SearchState} {left right : Nat}
    (hleft : pathfinder.Runs start? options state left)
    (hright : pathfinder.Runs start? options state right) : left = right := by
  rcases Nat.lt_trichotomy left right with hlt | hsame | hlt
  · exact absurd hleft.halts (hright.earlier left hlt)
  · exact hsame
  · exact absurd hright.halts (hleft.earlier right hlt)

/-- A search succeeds when its options are valid and it can begin. -/
theorem run_eq_ok_iff {search : Search} :
    pathfinder.run start? options = .ok search ↔
      pathfinder.validate options = .ok () ∧
        ∃ state count, pathfinder.Runs start? options state count ∧
          search = ⟨(pathfinder.round options)^[count + 1] state, count + 1⟩ := by
  constructor
  · intro hrun
    rcases Outcome.bind_eq_ok.mp hrun with ⟨⟨⟩, hvalid, hrun⟩
    rcases Outcome.bind_eq_ok.mp hrun with ⟨state, hbegin, hrun⟩
    rcases exists_runs options hbegin with ⟨count, hruns, heq⟩
    refine ⟨hvalid, state, count, hruns, ?_⟩
    rw [← heq]
    exact (Except.ok.inj hrun).symm
  · rintro ⟨hvalid, state, count, hruns, rfl⟩
    rcases exists_runs options hruns.begins with ⟨other, hother, heq⟩
    obtain rfl := hother.count_eq hruns
    exact Outcome.bind_eq_ok.mpr ⟨(), hvalid,
      Outcome.bind_eq_ok.mpr ⟨state, hruns.begins, congrArg Except.ok heq⟩⟩

/-- An accepted search succeeds. -/
theorem exists_run_of_accepts (haccepts : pathfinder.Accepts start? options) :
    ∃ state count, pathfinder.Runs start? options state count ∧
      pathfinder.run start? options =
        .ok ⟨(pathfinder.round options)^[count + 1] state, count + 1⟩ := by
  rcases exists_begin_of_accepts haccepts with ⟨state, hbegin⟩
  rcases exists_runs options hbegin with ⟨count, hruns, -⟩
  exact ⟨state, count, hruns,
    run_eq_ok_iff.mpr ⟨validate_of_accepts haccepts, state, count, hruns, rfl⟩⟩

/-- What is accepted is what a search succeeds with, once its starting items are valid. -/
theorem accepts_iff :
    pathfinder.Accepts start? options ↔
      (pathfinder.startingOf options).validate pathfinder.worlds = .ok () ∧
        ∃ search, pathfinder.run start? options = .ok search := by
  constructor
  · intro haccepts
    rcases exists_run_of_accepts haccepts with ⟨state, count, -, hrun⟩
    exact ⟨validate_starting_eq_ok_iff.mpr ⟨haccepts.items, haccepts.events⟩, _, hrun⟩
  · rintro ⟨hstarting, search, hrun⟩
    rcases run_eq_ok_iff.mp hrun with ⟨hvalid, state, count, hruns, -⟩
    rcases validate_eq_ok_iff.mp hvalid with ⟨hplacement, hforbidden, -⟩
    rcases validate_starting_eq_ok_iff.mp hstarting with ⟨hitems, hevents⟩
    have hbegin := exists_begin_iff.mp ⟨state, hruns.begins⟩
    exact ⟨hplacement, hforbidden, hitems, hevents,
      fun names hnames player hplayer => (hbegin player hplayer).1 names hnames,
      fun player hplayer => (hbegin player hplayer).2⟩

/-! ## The meadow -/

/-- A player of the meadow, who starts with a sword. -/
def meadowSolver : Pathfinder where
  players := [⟨.meadow, ⟨#[false]⟩⟩]
  starting := ⟨[[(0, 1)]], [[]]⟩
  goal := .never

theorem built_meadowSolver : ∀ player ∈ meadowSolver.players, player.world.Built := by
  simpa [meadowSolver] using World.built_meadow

/-- A search that leaves every item in its place. -/
def meadowOptions : SearchOptions :=
  { SearchOptions.plain with items? := some (.vanilla [.meadow]), recursive := true }

theorem accepts_meadow : meadowSolver.Accepts none meadowOptions :=
  accepts_iff.mpr ⟨rfl, _, rfl⟩

end Pathfinder

end SeedLogic
