import SeedLogic.Proofs.Dictionary
import SeedLogic.Proofs.Pathfinder.Naming

/-!
# Searches that are given by name

A search by name is run in a world once its names have been looked up there
(`NamedSearch.run`).  What it is run with says by number what the names say
(`speaks_of_lookup`).  It succeeds when the entries that the world depicts have all of the
names and somewhere to start (`exists_run_iff`).
-/

namespace SeedLogic

/-! ## Placements -/

namespace Placement

variable {placement : Placement} {location : Location} {placed : PlayerItem}

theorem insertAll_eq (placement : Placement) (entries : List (Location × PlayerItem)) :
    placement.insertAll entries = ⟨entries.foldl
      (fun items entry => items.insert entry.1 entry.2) placement.items⟩ := by
  induction entries generalizing placement with
  | nil => rfl
  | cons entry entries ih => exact ih (placement.insert entry.1 entry.2)

theorem insertAll_empty (entries : List (Location × PlayerItem)) :
    empty.insertAll entries = ⟨.ofList entries⟩ :=
  insertAll_eq empty entries

/-- Items that are placed at distinct locations lie there afterwards. -/
theorem get?_insertAll_empty {entries : List (Location × PlayerItem)}
    (hagree : Dict.Agree entries) :
    (empty.insertAll entries).get? location = some placed ↔ (location, placed) ∈ entries := by
  rw [insertAll_empty]
  exact Dict.find?_ofList_iff hagree

theorem ofSlot_eq_ok_iff {world : World} {id : WorldId} {entry : String × String}
    {result : Location × PlayerItem} :
    ofSlot world id entry = .ok result ↔ ∃ check item, world.checkId? entry.1 = some check ∧
      world.itemId? entry.2 = some item ∧ result = (⟨id, check⟩, ⟨id, item⟩) := by
  unfold ofSlot
  cases world.checkId? entry.1 with
  | none => simp
  | some check => cases world.itemId? entry.2 <;> simp [eq_comm]

/-- One player's items are placed slot by slot. -/
theorem ofNames_eq_ok_iff {world : World} {names : Dict String String} :
    ofNames [world] [names] = .ok placement ↔
      ∃ slots, names.entries.mapM (ofSlot world 0) = .ok slots ∧
        placement = empty.insertAll slots := by
  have hlength : ¬[names].length > [world].length := by simp
  have hslots : ([world].zip [names]).zipIdx = [((world, names), 0)] := rfl
  simp only [ofNames, if_neg hlength, hslots, Outcome.bind_eq_ok, Outcome.mapM_eq_ok,
    List.forall₂_cons_left_iff, List.forall₂_nil_left_iff, ofSlots]
  constructor
  · rintro ⟨_, ⟨slots, _, hslots, rfl, rfl⟩, hplacement⟩
    cases hplacement
    exact ⟨slots, hslots, by rw [List.flatten_singleton]⟩
  · rintro ⟨slots, hslots, rfl⟩
    exact ⟨_, ⟨slots, [], hslots, rfl, rfl⟩, by rw [List.flatten_singleton]⟩

end Placement

/-! ## Looking up names -/

namespace NamedSearch

/-- A number that was looked up, or a failure. -/
def found (number? : Option Nat) (error : LogicError) : Except LogicError Nat :=
  match number? with
  | some number => .ok number
  | none => .error error

/-- An item with its count, by number. -/
def numberItem (world : World) (item : String × Nat) : Except LogicError (ItemId × Nat) := do
  let id ← found (world.itemId? item.1) (.unknownSymbol .item item.1)
  .ok (id, item.2)

/-- An event by number. -/
def numberEvent (world : World) (name : String) : Except LogicError EventId :=
  found (world.eventId? name) (.unknownSymbol .event name)

/-- A location of the first player by number. -/
def numberLocation (world : World) (name : String) : Except LogicError Location := do
  let check ← found (world.checkId? name) (.invalidOptions (.unknownSlot name))
  .ok ⟨0, check⟩

/-- The starting items and events. -/
def starting (names : NamedSearch) (world : World) : Except LogicError StartingItems := do
  let items ← names.items.mapM (numberItem world)
  let events ← names.events.mapM (numberEvent world)
  .ok ⟨[items], [events]⟩

/-- A recursive search to its end. -/
def searchOptions (names : NamedSearch) (placement : Placement) (forbidden : List Location) :
    SearchOptions where
  items? := some placement
  starting? := none
  recursive := true
  forbidden
  stopAtGoal := false
  gossips := names.gossips

/-- The options of the search, by number. -/
def options (names : NamedSearch) (world : World) : Except LogicError SearchOptions := do
  let placement ← Placement.ofNames [world] [names.placement]
  let forbidden ← names.forbidden.mapM (numberLocation world)
  .ok (names.searchOptions placement forbidden)

/-- The solver of one world under settings. -/
def solver (settings : Options) (world : World) (starting : StartingItems) : Pathfinder :=
  ⟨[⟨world, world.resolveSettings settings⟩], starting, .never⟩

/-- Run a search by name in a world under settings. -/
def run (names : NamedSearch) (settings : Options) (world : World) :
    Except LogicError Search := do
  let starting ← names.starting world
  let pathfinder ← Pathfinder.ofWorlds [world] settings starting
  let options ← names.options world
  pathfinder.run names.start? options

/-- How many of an item the search starts with. -/
def count (names : NamedSearch) (name : String) : Nat :=
  ((names.items.filter fun item => item.1 = name).map Prod.snd).sum

variable {names : NamedSearch} {settings : Options} {world : World}

theorem found_eq_ok_iff {number? : Option Nat} {error : LogicError} {number : Nat} :
    found number? error = .ok number ↔ number? = some number := by
  cases number? <;> simp [found]

theorem numberItem_eq_ok_iff {item : String × Nat} {result : ItemId × Nat} :
    numberItem world item = .ok result ↔
      world.itemName? result.1 = some item.1 ∧ result.2 = item.2 := by
  rcases result with ⟨id, amount⟩
  simp only [numberItem, Outcome.bind_eq_ok, found_eq_ok_iff, World.itemId?,
    NameTable.get?_eq_some_iff, World.itemName?]
  constructor
  · rintro ⟨_, hid, hresult⟩
    cases hresult
    exact ⟨hid, rfl⟩
  · rintro ⟨hid, rfl⟩
    exact ⟨id, hid, rfl⟩

theorem numberEvent_eq_ok_iff {name : String} {event : EventId} :
    numberEvent world name = .ok event ↔ world.eventName? event = some name := by
  rw [numberEvent, found_eq_ok_iff]
  exact NameTable.get?_eq_some_iff

theorem numberLocation_eq_ok_iff {name : String} {location : Location} :
    numberLocation world name = .ok location ↔
      ∃ check, world.checkId? name = some check ∧ location = ⟨0, check⟩ := by
  simp only [numberLocation, Outcome.bind_eq_ok, found_eq_ok_iff]
  constructor
  · rintro ⟨check, hcheck, hlocation⟩
    cases hlocation
    exact ⟨check, hcheck, rfl⟩
  · rintro ⟨check, hcheck, rfl⟩
    exact ⟨check, hcheck, rfl⟩

theorem starting_eq_ok_iff {starting : StartingItems} :
    names.starting world = .ok starting ↔
      ∃ items events, names.items.mapM (numberItem world) = .ok items ∧
        names.events.mapM (numberEvent world) = .ok events ∧ starting = ⟨[items], [events]⟩ := by
  simp only [NamedSearch.starting, Outcome.bind_eq_ok]
  constructor
  · rintro ⟨items, hitems, events, hevents, hstarting⟩
    cases hstarting
    exact ⟨items, events, hitems, hevents, rfl⟩
  · rintro ⟨items, events, hitems, hevents, rfl⟩
    exact ⟨items, hitems, events, hevents, rfl⟩

theorem options_eq_ok_iff {options : SearchOptions} :
    names.options world = .ok options ↔
      ∃ slots forbidden, names.placement.entries.mapM (Placement.ofSlot world 0) = .ok slots ∧
        names.forbidden.mapM (numberLocation world) = .ok forbidden ∧
        options = names.searchOptions (Placement.empty.insertAll slots) forbidden := by
  simp only [NamedSearch.options, Outcome.bind_eq_ok, Placement.ofNames_eq_ok_iff]
  constructor
  · rintro ⟨_, ⟨slots, hslots, rfl⟩, forbidden, hforbidden, hoptions⟩
    cases hoptions
    exact ⟨slots, forbidden, hslots, hforbidden, rfl⟩
  · rintro ⟨slots, forbidden, hslots, hforbidden, rfl⟩
    exact ⟨_, ⟨slots, hslots, rfl⟩, forbidden, hforbidden, rfl⟩

/-- A search by name succeeds when its names are looked up and the search is accepted. -/
theorem run_eq_ok_iff {search : Search} :
    names.run settings world = .ok search ↔
      ∃ starting options, names.starting world = .ok starting ∧ names.options world = .ok options ∧
        (solver settings world starting).Accepts names.start? options ∧
        (solver settings world starting).run names.start? options = .ok search := by
  simp only [run, Pathfinder.ofWorlds, Outcome.bind_eq_ok]
  constructor
  · rintro ⟨starting, hstarting, _, ⟨⟨⟩, hvalid, hpathfinder⟩, options, hoptions, hrun⟩
    cases hpathfinder
    refine ⟨starting, options, hstarting, hoptions, Pathfinder.accepts_iff.mpr ⟨?_, _, hrun⟩, hrun⟩
    rcases options_eq_ok_iff.mp hoptions with ⟨slots, forbidden, -, -, rfl⟩
    exact hvalid
  · rintro ⟨starting, options, hstarting, hoptions, haccepts, hrun⟩
    have hvalid := (Pathfinder.accepts_iff.mp haccepts).1
    refine ⟨starting, hstarting, _, ⟨(), ?_, rfl⟩, options, hoptions, hrun⟩
    rcases options_eq_ok_iff.mp hoptions with ⟨slots, forbidden, -, -, rfl⟩
    exact hvalid

/-! ## What a search is run with -/

/-- Numbers say what the names of a search say. -/
structure Speaks (names : NamedSearch) (settings : Options) (world : World)
    (pathfinder : Pathfinder) (options : SearchOptions) : Prop where
  players : pathfinder.players = [⟨world, world.resolveSettings settings⟩]
  events : ∀ event, event ∈ (pathfinder.startingOf options).eventsOf 0 ↔
    ∃ name ∈ names.events, world.eventName? event = some name
  count : ∀ {item name}, world.itemName? item = some name →
    (pathfinder.startingOf options).count 0 item = names.count name
  collected : ∀ {check item slot name}, world.checkName? check = some slot →
    world.itemName? item = some name →
      (options.collected? ⟨0, check⟩ = some ⟨0, item⟩ ↔ names.placement.find? slot = some name)
  forbidden : ∀ check, (⟨0, check⟩ : Location) ∈ options.forbidden ↔
    ∃ name ∈ names.forbidden, world.checkName? check = some name
  recursive : options.recursive = true
  stop : options.stopAtGoal = false

theorem sum_of_numberItem {entries : List (String × Nat)} {numbered : List (ItemId × Nat)}
    (hnumbered : entries.mapM (numberItem world) = .ok numbered) {item : ItemId} {name : String}
    (hname : world.itemName? item = some name) :
    ((numbered.filter fun entry => entry.1 = item).map Prod.snd).sum =
      ((entries.filter fun entry => entry.1 = name).map Prod.snd).sum := by
  have hall := Outcome.mapM_eq_ok.mp hnumbered
  clear hnumbered
  induction hall with
  | nil => rfl
  | @cons entry first entries numbered hfirst _ ih =>
      rcases numberItem_eq_ok_iff.mp hfirst with ⟨hnumber, hamount⟩
      have hsame : first.1 = item ↔ entry.1 = name := by
        constructor
        · rintro rfl
          exact Option.some.inj (hnumber.symm.trans hname)
        · rintro rfl
          exact World.eq_of_getElem?_eq world.symbols.items.nodup hnumber hname
      by_cases hentry : entry.1 = name
      · simp [hsame, hentry, hamount, ih]
      · simp [hsame, hentry, ih]

section Coherent

variable {tables : List GameTable} {known : Options} (hcoherent : world.Coherent tables known)
include hcoherent

theorem ofSlot_iff {id : WorldId} {entry : String × String} {location : Location}
    {placed : PlayerItem} :
    Placement.ofSlot world id entry = .ok (location, placed) ↔
      location.world = id ∧ placed.player = id ∧
        world.checkName? location.check = some entry.1 ∧
        world.itemName? placed.item = some entry.2 := by
  rcases location with ⟨_, check⟩
  rcases placed with ⟨_, item⟩
  simp only [Placement.ofSlot_eq_ok_iff, World.checkId?_eq_some_iff hcoherent, World.itemId?,
    NameTable.get?_eq_some_iff, World.itemName?, Prod.mk.injEq, Location.mk.injEq,
    PlayerItem.mk.injEq]
  constructor
  · rintro ⟨_, _, hcheck, hitem, ⟨rfl, rfl⟩, rfl, rfl⟩
    exact ⟨rfl, rfl, hcheck, hitem⟩
  · rintro ⟨rfl, rfl, hcheck, hitem⟩
    exact ⟨check, item, hcheck, hitem, ⟨rfl, rfl⟩, rfl, rfl⟩

/-- What lies at a location is the item that its slot is given. -/
theorem eq_of_ofSlot {slots : Dict String String} {id : WorldId} {first second : String × String}
    (hfirst : first ∈ slots.entries) (hsecond : second ∈ slots.entries) {location : Location}
    {placed other : PlayerItem} (hplaced : Placement.ofSlot world id first = .ok (location, placed))
    (hother : Placement.ofSlot world id second = .ok (location, other)) : placed = other := by
  rcases first with ⟨slot, item⟩
  rcases second with ⟨again, name⟩
  rcases placed with ⟨player, number⟩
  rcases other with ⟨receiver, twin⟩
  rcases (ofSlot_iff hcoherent).mp hplaced with ⟨-, rfl, hslot, hitem⟩
  rcases (ofSlot_iff hcoherent).mp hother with ⟨-, rfl, hagain, hname⟩
  cases hslot.symm.trans hagain
  cases (Dict.find?_eq_some_iff.mpr hfirst).symm.trans (Dict.find?_eq_some_iff.mpr hsecond)
  obtain rfl : number = twin := World.eq_of_getElem?_eq world.symbols.items.nodup hitem hname
  rfl

/-- No location is given two items. -/
theorem agree_slots {slots : List (Location × PlayerItem)}
    (hslots : names.placement.entries.mapM (Placement.ofSlot world 0) = .ok slots) :
    Dict.Agree slots := by
  intro location placed other hplaced hother
  rcases Outcome.exists_of_mem_mapM hslots hplaced with ⟨first, hfirst, hplaced⟩
  rcases Outcome.exists_of_mem_mapM hslots hother with ⟨second, hsecond, hother⟩
  exact eq_of_ofSlot hcoherent hfirst hsecond hplaced hother

variable {starting : StartingItems} {options : SearchOptions}

/-- What names are looked up as says what they say. -/
theorem speaks_of_lookup (hstarting : names.starting world = .ok starting)
    (hoptions : names.options world = .ok options) :
    names.Speaks settings world (solver settings world starting) options := by
  rcases starting_eq_ok_iff.mp hstarting with ⟨items, events, hitems, hevents, rfl⟩
  rcases options_eq_ok_iff.mp hoptions with ⟨slots, forbidden, hslots, hforbidden, rfl⟩
  constructor
  case players => rfl
  case events =>
    intro event
    change event ∈ events ↔ _
    simp only [Outcome.mem_mapM_iff hevents, numberEvent_eq_ok_iff]
  case count => exact fun hname => sum_of_numberItem hitems hname
  case collected =>
    intro check item slot name hslot hname
    change (Placement.empty.insertAll slots).get? ⟨0, check⟩ = some ⟨0, item⟩ ↔ _
    simp only [Placement.get?_insertAll_empty (agree_slots hcoherent hslots),
      Outcome.mem_mapM_iff hslots, ofSlot_iff hcoherent, true_and, hslot, hname,
      Dict.find?_eq_some_iff, Option.some.injEq]
    constructor
    · rintro ⟨entry, hentry, rfl, rfl⟩
      exact hentry
    · exact fun hentry => ⟨_, hentry, rfl, rfl⟩
  case forbidden =>
    intro check
    simp only [searchOptions, Outcome.mem_mapM_iff hforbidden, numberLocation_eq_ok_iff,
      World.checkId?_eq_some_iff hcoherent, Location.mk.injEq, true_and, exists_eq_right']
  case recursive => rfl
  case stop => rfl

/-- A search whose names are looked up is accepted when the world has its start areas. -/
theorem accepts_of_lookup (hstarting : names.starting world = .ok starting)
    (hoptions : names.options world = .ok options)
    (hareas : ∀ starts, names.start? = some starts → ∀ name ∈ starts,
      ∃ area, world.areaId? name = some area)
    (hstart : ∃ area, Pathfinder.IsStart names.start? world area) :
    (solver settings world starting).Accepts names.start? options := by
  rcases starting_eq_ok_iff.mp hstarting with ⟨items, events, hitems, hevents, rfl⟩
  rcases options_eq_ok_iff.mp hoptions with ⟨slots, forbidden, hslots, hforbidden, rfl⟩
  have hcheck : ∀ {check slot}, world.checkId? slot = some check →
      Pathfinder.hasLocation (solver settings world ⟨[items], [events]⟩) ⟨0, check⟩ = true := by
    intro check slot hslot
    have hlt := (List.findIdx?_eq_some_iff_getElem.mp hslot).1
    exact Pathfinder.hasLocation_iff.mpr ⟨_, rfl, hlt⟩
  have hitem : ∀ {item name}, world.itemName? item = some name → item < world.itemCount :=
    fun hname => (List.getElem?_eq_some_iff.mp hname).1
  constructor
  case placement =>
    intro placement hplacement entry hentry
    cases hplacement
    have hmem := (Placement.get?_insertAll_empty (agree_slots hcoherent hslots)).mp
      (Dict.find?_eq_some_iff.mpr hentry)
    rcases (Outcome.mem_mapM_iff hslots).mp hmem with ⟨slot, -, hslot⟩
    rcases Placement.ofSlot_eq_ok_iff.mp hslot with ⟨check, item, hslot, hname, heq⟩
    rw [Prod.mk.injEq] at heq
    rw [heq.1, heq.2]
    exact ⟨hcheck hslot, Pathfinder.hasItem_iff.mpr
      ⟨world, rfl, hitem (NameTable.get?_eq_some_iff.mp hname)⟩⟩
  case forbidden =>
    intro location hlocation
    rcases (Outcome.mem_mapM_iff hforbidden).mp hlocation with ⟨name, -, hname⟩
    rcases numberLocation_eq_ok_iff.mp hname with ⟨check, hslot, rfl⟩
    exact hcheck hslot
  case items =>
    intro id entries hentries
    rcases World.eq_of_getElem?_singleton hentries with ⟨rfl, rfl⟩
    refine ⟨world, rfl, fun entry hentry => ?_⟩
    rcases (Outcome.mem_mapM_iff hitems).mp hentry with ⟨item, -, hnumber⟩
    exact hitem (numberItem_eq_ok_iff.mp hnumber).1
  case events =>
    intro id entries hentries
    rcases World.eq_of_getElem?_singleton hentries with ⟨rfl, rfl⟩
    refine ⟨world, rfl, fun event hevent => ?_⟩
    rcases (Outcome.mem_mapM_iff hevents).mp hevent with ⟨name, -, hnumber⟩
    exact (List.getElem?_eq_some_iff.mp (numberEvent_eq_ok_iff.mp hnumber)).1
  case names =>
    intro starts hstarts player hplayer
    rw [List.mem_singleton.mp hplayer]
    exact hareas starts hstarts
  case start =>
    intro player hplayer
    rw [List.mem_singleton.mp hplayer]
    exact hstart

end Coherent

/-! ## Names that a search can be given -/

/-- Everything that a search by name speaks of is described or provided by some entry, and
there is an area to start from. -/
structure Fits (names : NamedSearch) (declared : List Declaration) : Prop where
  items : ∀ item ∈ names.items,
    ∃ declaration ∈ declared, .item item.1 ∈ declaration.provides
  events : ∀ name ∈ names.events,
    ∃ declaration ∈ declared, .event name ∈ declaration.provides
  placement : ∀ entry ∈ names.placement.entries,
    (∃ declaration ∈ declared, declaration.site? = some (.check entry.1)) ∧
      ∃ declaration ∈ declared, .item entry.2 ∈ declaration.provides
  forbidden : ∀ name ∈ names.forbidden,
    ∃ declaration ∈ declared, declaration.site? = some (.check name)
  areas : ∀ starts, names.start? = some starts → ∀ name ∈ starts,
    ∃ declaration ∈ declared, declaration.site? = some (.area name)
  start : ∃ name, names.IsStart declared name

section Depicts

variable {declared : List Declaration} {tables : List GameTable} {known : Options}
  (hdepicts : world.Depicts declared)
include hdepicts

theorem exists_numberItem_iff {item : String × Nat} :
    (∃ number, numberItem world item = .ok number) ↔
      ∃ declaration ∈ declared, .item item.1 ∈ declaration.provides := by
  rw [← hdepicts.items, List.mem_iff_getElem?]
  simp only [numberItem_eq_ok_iff]
  constructor
  · rintro ⟨number, hname, -⟩
    exact ⟨_, hname⟩
  · rintro ⟨id, hname⟩
    exact ⟨(id, item.2), hname, rfl⟩

theorem exists_numberEvent_iff {name : String} :
    (∃ number, numberEvent world name = .ok number) ↔
      ∃ declaration ∈ declared, .event name ∈ declaration.provides := by
  rw [← hdepicts.events, List.mem_iff_getElem?]
  simp only [numberEvent_eq_ok_iff, World.eventName?]

/-- Starting items and events are looked up when entries provide all of them. -/
theorem exists_starting_iff :
    (∃ starting, names.starting world = .ok starting) ↔
      (∀ item ∈ names.items, ∃ declaration ∈ declared, .item item.1 ∈ declaration.provides) ∧
        ∀ name ∈ names.events, ∃ declaration ∈ declared, .event name ∈ declaration.provides := by
  have hlookup : (∃ starting, names.starting world = .ok starting) ↔
      (∃ items, names.items.mapM (numberItem world) = .ok items) ∧
        ∃ events, names.events.mapM (numberEvent world) = .ok events := by
    simp only [starting_eq_ok_iff]
    constructor
    · rintro ⟨_, items, events, hitems, hevents, -⟩
      exact ⟨⟨items, hitems⟩, events, hevents⟩
    · rintro ⟨⟨items, hitems⟩, events, hevents⟩
      exact ⟨_, items, events, hitems, hevents, rfl⟩
  simp only [hlookup, Outcome.exists_mapM_iff, exists_numberItem_iff hdepicts,
    exists_numberEvent_iff hdepicts]

theorem exists_itemId?_iff {name : String} :
    (∃ id, world.itemId? name = some id) ↔
      ∃ declaration ∈ declared, .item name ∈ declaration.provides := by
  rw [← hdepicts.items, List.mem_iff_getElem?]
  simp only [World.itemId?, NameTable.get?_eq_some_iff]

/-- Names of start areas are names of areas. -/
theorem exists_areaName_of_isStart
    (hareas : ∀ starts, names.start? = some starts → ∀ name ∈ starts,
      ∃ declaration ∈ declared, declaration.site? = some (.area name))
    {name : String} (hstart : names.IsStart declared name) :
    ∃ area, world.areaName? area = some name := by
  unfold IsStart at hstart
  split at hstart
  case h_1 =>
    rcases (hdepicts.starts name).mp hstart with ⟨area, -, harea⟩
    exact ⟨area, harea⟩
  case h_2 starts hstarts =>
    have hmem := hdepicts.mem_areaNames_iff.mpr (hareas starts hstarts name hstart)
    exact List.mem_iff_getElem?.mp hmem

variable (hcoherent : world.Coherent tables known)
include hcoherent

theorem exists_checkId?_iff {name : String} :
    (∃ id, world.checkId? name = some id) ↔
      ∃ declaration ∈ declared, declaration.site? = some (.check name) := by
  rw [← hdepicts.checks, List.mem_iff_getElem?]
  simp only [World.checkId?_eq_some_iff hcoherent, World.checkName?]

theorem exists_numberLocation_iff {name : String} :
    (∃ location, numberLocation world name = .ok location) ↔
      ∃ declaration ∈ declared, declaration.site? = some (.check name) := by
  rw [← exists_checkId?_iff hdepicts hcoherent]
  simp only [numberLocation_eq_ok_iff]
  constructor
  · rintro ⟨_, check, hcheck, -⟩
    exact ⟨check, hcheck⟩
  · rintro ⟨check, hcheck⟩
    exact ⟨_, check, hcheck, rfl⟩

theorem exists_ofSlot_iff {entry : String × String} :
    (∃ slot, Placement.ofSlot world 0 entry = .ok slot) ↔
      (∃ declaration ∈ declared, declaration.site? = some (.check entry.1)) ∧
        ∃ declaration ∈ declared, .item entry.2 ∈ declaration.provides := by
  rw [← exists_checkId?_iff hdepicts hcoherent, ← exists_itemId?_iff hdepicts]
  simp only [Placement.ofSlot_eq_ok_iff]
  constructor
  · rintro ⟨_, check, item, hcheck, hitem, -⟩
    exact ⟨⟨check, hcheck⟩, item, hitem⟩
  · rintro ⟨⟨check, hcheck⟩, item, hitem⟩
    exact ⟨_, check, item, hcheck, hitem, rfl⟩

/-- Options are looked up when entries provide the placed items and describe all slots. -/
theorem exists_options_iff :
    (∃ options, names.options world = .ok options) ↔
      (∀ entry ∈ names.placement.entries,
        (∃ declaration ∈ declared, declaration.site? = some (.check entry.1)) ∧
          ∃ declaration ∈ declared, .item entry.2 ∈ declaration.provides) ∧
        ∀ name ∈ names.forbidden,
          ∃ declaration ∈ declared, declaration.site? = some (.check name) := by
  have hlookup : (∃ options, names.options world = .ok options) ↔
      (∃ slots, names.placement.entries.mapM (Placement.ofSlot world 0) = .ok slots) ∧
        ∃ forbidden, names.forbidden.mapM (numberLocation world) = .ok forbidden := by
    simp only [options_eq_ok_iff]
    constructor
    · rintro ⟨_, slots, forbidden, hslots, hforbidden, -⟩
      exact ⟨⟨slots, hslots⟩, forbidden, hforbidden⟩
    · rintro ⟨⟨slots, hslots⟩, forbidden, hforbidden⟩
      exact ⟨_, slots, forbidden, hslots, hforbidden, rfl⟩
  simp only [hlookup, Outcome.exists_mapM_iff, exists_ofSlot_iff hdepicts hcoherent,
    exists_numberLocation_iff hdepicts hcoherent]

theorem exists_areaId?_iff {name : String} :
    (∃ id, world.areaId? name = some id) ↔
      ∃ declaration ∈ declared, declaration.site? = some (.area name) := by
  rw [← hdepicts.mem_areaNames_iff, List.mem_iff_getElem?]
  simp only [World.areaId?_eq_some_iff hcoherent, World.areaName?]

/-- A search by name succeeds in a world when the entries that the world depicts have the
names. -/
theorem exists_run_iff :
    (∃ search, names.run settings world = .ok search) ↔ names.Fits declared := by
  simp only [run_eq_ok_iff]
  constructor
  · rintro ⟨search, starting, options, hstarting, hoptions, haccepts, -⟩
    rcases (exists_starting_iff hdepicts).mp ⟨starting, hstarting⟩ with ⟨hitems, hevents⟩
    rcases (exists_options_iff hdepicts hcoherent).mp ⟨options, hoptions⟩ with
      ⟨hplacement, hforbidden⟩
    refine ⟨hitems, hevents, hplacement, hforbidden, fun starts hstarts name hname => ?_, ?_⟩
    · exact (exists_areaId?_iff hdepicts hcoherent).mp
        (haccepts.names starts hstarts _ List.mem_cons_self name hname)
    · rcases haccepts.start _ List.mem_cons_self with ⟨area, harea⟩
      rcases (isStart_iff hdepicts hcoherent).mp harea with ⟨name, hname, -⟩
      exact ⟨name, hname⟩
  · intro hfits
    rcases (exists_starting_iff hdepicts).mpr ⟨hfits.items, hfits.events⟩ with
      ⟨starting, hstarting⟩
    rcases (exists_options_iff hdepicts hcoherent).mpr ⟨hfits.placement, hfits.forbidden⟩ with
      ⟨options, hoptions⟩
    have hareas : ∀ starts, names.start? = some starts → ∀ name ∈ starts,
        ∃ area, world.areaId? name = some area :=
      fun starts hstarts name hname =>
        (exists_areaId?_iff hdepicts hcoherent).mpr (hfits.areas starts hstarts name hname)
    have hstart : ∃ area, Pathfinder.IsStart names.start? world area := by
      rcases hfits.start with ⟨name, hstart⟩
      rcases exists_areaName_of_isStart hdepicts hfits.areas hstart with ⟨area, harea⟩
      exact ⟨area, (isStart_iff hdepicts hcoherent).mpr ⟨name, hstart, harea⟩⟩
    have haccepts := @accepts_of_lookup names settings world _ _ hcoherent _ _ hstarting hoptions
      hareas hstart
    rcases Pathfinder.exists_run_of_accepts haccepts with ⟨state, count, -, hrun⟩
    exact ⟨_, starting, options, hstarting, hoptions, haccepts, hrun⟩

end Depicts

end NamedSearch

end SeedLogic
