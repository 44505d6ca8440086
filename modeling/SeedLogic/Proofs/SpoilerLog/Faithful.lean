import SeedLogic.Proofs.Analysis.LockCircles
import SeedLogic.Proofs.SpoilerLog.Checked

/-!
# Faithful spoiler logs

A spoiler log has names where an analysis has numbers.  Names of checks and of hint stones
are distinct in a built world, so that nothing is lost: looking the names up again gives
back the analysis and the hints that the log was made of (`ofAnalysis_faithful`).
-/

namespace SeedLogic

namespace SpoilerLog

/-! ## Reading a log -/

/-- The location that an entry names, if its world has a check of this name. -/
def locate? (worlds : List World) (entry : SpoilerLocation) : Option Location := do
  let world ← worlds[entry.world]?
  let check ← world.checkId? entry.location
  some ⟨entry.world, check⟩

/-- The stone that an entry names, if its world has a stone of this name, and its hint. -/
def locateHint? (worlds : List World) (entry : SpoilerHint) :
    Option ((WorldId × GossipId) × Hint) := do
  let world ← worlds[entry.world]?
  let stone ← world.gossipId? entry.gossip
  some ((entry.world, stone), entry.hint)

/-- The entries of a log that are about locations. -/
def entries (log : SpoilerLog) : List SpoilerLocation :=
  log.spheres.flatten ++ log.required ++ log.unreachable ++
    log.paths.flatMap SpoilerPath.locations

/-- An entry names what is placed: the item of the player who receives it, or nothing. -/
def NamesItem (worlds : List World) : Option PlayerItem → Option String → Prop
  | none, item? => item? = none
  | some placed, item? => ∃ world name, worlds[placed.player]? = some world ∧
      world.symbols.items.keys[placed.item]? = some name ∧ item? = some name

/-- What a log says is what it was made of: the locations of an analysis, in the same order
and parts and with the items placed there, and the stones of a board, each once and with
its hint. -/
structure Faithful (worlds : List World) (placement : Placement) (analysis : Analysis)
    (board? : Option HintBoard) (log : SpoilerLog) : Prop where
  spheres : log.spheres.map (List.map (locate? worlds)) = analysis.spheres.map (List.map some)
  required : log.required.map (locate? worlds) = analysis.required.toList.map some
  unreachable : log.unreachable.map (locate? worlds) = analysis.unreachable.toList.map some
  paths : log.paths.map (fun path => (path.kind, path.locations.map (locate? worlds))) =
    analysis.paths.map fun path => (path.kind, path.locations.toList.map some)
  items : ∀ entry ∈ log.entries, ∃ location, locate? worlds entry = some location ∧
    NamesItem worlds (placement.get? location) entry.item?
  hints : ∃ assigned : List ((WorldId × GossipId) × Hint),
    log.hints.map (locateHint? worlds) = assigned.map some ∧
    (assigned.map Prod.fst).Nodup ∧ ∀ world stone hint, ((world, stone), hint) ∈ assigned ↔
      ∃ board, board? = some board ∧ board.hint? world stone = some hint

variable {worlds : List World} {placement : Placement} {analysis : Analysis}
  {board? : Option HintBoard}

/-! ## Names -/

section Built

variable (hbuilt : ∀ world ∈ worlds, world.Built)
include hbuilt

/-- An entry names the location that it was made for. -/
theorem locate?_describeLocation {location : Location} (hexists : location.ExistsIn worlds) :
    locate? worlds (describeLocation worlds placement location) = some location := by
  rcases hexists with ⟨world, hworld, hlt⟩
  have hcheck := List.getElem?_eq_getElem hlt
  rcases hbuilt world (List.mem_of_getElem? hworld) with ⟨tables, options, constraint, hbuild⟩
  have hid : world.checkId? world.checks[location.check].name = some location.check :=
    ((World.coherent_of_build hbuild).checkId? _ _).mpr ⟨_, hcheck, rfl⟩
  simp [locate?, describeLocation, hworld, hcheck, hid]

theorem map_locate?_describeLocations {locations : List Location}
    (hexist : ∀ location ∈ locations, location.ExistsIn worlds) :
    (describeLocations worlds placement locations).map (locate? worlds) = locations.map some := by
  rw [describeLocations, List.map_map]
  apply List.map_congr_left
  intro location hlocation
  exact locate?_describeLocation hbuilt (hexist location hlocation)

/-- A hint names the stone that it was given to. -/
theorem map_locateHint?_describeHints {board : HintBoard} (hexist : board.StonesExist worlds) :
    (describeHints worlds board).map (locateHint? worlds) = board.assignments.map some := by
  rw [describeHints, HintBoard.assignments, List.map_flatMap, List.map_flatMap]
  apply List.flatMap_congr
  intro stones hstones
  rw [List.map_map, List.map_map]
  apply List.map_congr_left
  intro entry hentry
  have hmem : ((stones.2, entry.1), entry.2) ∈ board.assignments :=
    List.mem_flatMap.mpr ⟨stones, hstones, List.mem_map.mpr ⟨entry, hentry, rfl⟩⟩
  rcases hexist _ _ _ (HintBoard.mem_assignments_iff.mp hmem) with ⟨world, hworld, hlt⟩
  have hstone := List.getElem?_eq_getElem hlt
  rcases hbuilt world (List.mem_of_getElem? hworld) with ⟨tables, options, constraint, hbuild⟩
  have hid : world.gossipId? world.gossips[entry.1].name = some entry.1 :=
    ((World.coherent_of_build hbuild).gossipId? _ _).mpr ⟨_, hstone, rfl⟩
  simp [locateHint?, stoneName, hworld, hstone, hid]

end Built

/-- An entry names the item that lies at its location. -/
theorem namesItem_describeLocation (hvalid : placement.ValidFor worlds) (location : Location) :
    NamesItem worlds (placement.get? location)
      (describeLocation worlds placement location).item? := by
  cases hplaced : placement.get? location with
  | none => simp [NamesItem, describeLocation, hplaced]
  | some placed =>
      rcases existsIn_of_get? hvalid hplaced with ⟨world, hworld, hlt⟩
      have hitem : world.symbols.items.keys[placed.item]? =
          some world.symbols.items.keys[placed.item] := List.getElem?_eq_getElem hlt
      refine ⟨world, _, hworld, hitem, ?_⟩
      simp [describeLocation, hplaced, itemName, hworld, hitem]

/-- The entries of a log are about the locations of its analysis. -/
theorem exists_location_of_mem_entries {entry : SpoilerLocation}
    (hexist : LocationsExist worlds analysis)
    (hentry : entry ∈ (ofAnalysis worlds placement analysis board?).entries) :
    ∃ location, location.ExistsIn worlds ∧ entry = describeLocation worlds placement location := by
  simp only [entries, ofAnalysis, List.mem_append] at hentry
  rcases hentry with ((hentry | hentry) | hentry) | hentry
  · rcases List.mem_flatten.mp hentry with ⟨named, hnamed, hentry⟩
    rcases List.mem_map.mp hnamed with ⟨sphere, hsphere, rfl⟩
    rcases List.mem_map.mp hentry with ⟨location, hlocation, rfl⟩
    exact ⟨location, hexist.spheres sphere hsphere location hlocation, rfl⟩
  · rcases List.mem_map.mp hentry with ⟨location, hlocation, rfl⟩
    exact ⟨location, hexist.required location hlocation, rfl⟩
  · rcases List.mem_map.mp hentry with ⟨location, hlocation, rfl⟩
    exact ⟨location, hexist.unreachable location hlocation, rfl⟩
  · rcases List.mem_flatMap.mp hentry with ⟨named, hnamed, hentry⟩
    rcases List.mem_map.mp hnamed with ⟨path, hpath, rfl⟩
    rcases List.mem_map.mp hentry with ⟨location, hlocation, rfl⟩
    exact ⟨location, hexist.paths path hpath location hlocation, rfl⟩

/-! ## Analyses of worlds -/

theorem existsIn_iff {pathfinder : Pathfinder} {location : Location} :
    location.ExistsIn pathfinder.worlds ↔ pathfinder.hasLocation location = true := by
  rw [Location.ExistsIn, Pathfinder.hasLocation, Pathfinder.getElem?_worlds]
  cases pathfinder.world? location.world <;> simp

/-- The locations of an analysis are locations of the worlds that it analyzes. -/
theorem locationsExist_of_run {pathfinder : Pathfinder} {played : Placement}
    {settings : Settings} (hlinked : ∀ player ∈ pathfinder.players, player.world.Linked)
    (hrun : (Analysis.run pathfinder played settings).result = .ok analysis) :
    LocationsExist pathfinder.worlds analysis := by
  obtain ⟨other, hsame, hpaths⟩ := Analysis.exists_rawPaths_of_run hrun
  rcases Analysis.exists_stages_of_run hrun with
    ⟨state, unreachable, bosses, endBosses, hplayed, hunreachable, -, -, rfl⟩
  rcases Analysis.playthrough_eq_ok_iff.mp hplayed with ⟨found, hfound, rfl, -⟩
  rcases Analysis.findUnreachable_eq_ok_iff.mp hunreachable with ⟨full, hfull, rfl⟩
  have hledger := Pathfinder.ledger_of_run hfound
  have hflat : ∀ location ∈ found.state.spheres.flatten, location.ExistsIn pathfinder.worlds :=
    fun location hlocation => existsIn_iff.mpr (hledger.hasLocation_of_mem hlinked hlocation)
  have hrequired : ∀ location,
      (LocationSet.ofList ((Analysis.missed pathfinder played found.state).map Prod.fst)).has
        location = true → location.ExistsIn pathfinder.worlds := by
    intro location hlocation
    exact hflat location (Analysis.mem_missed.mp (LocationSet.has_ofList.mp hlocation)).1
  constructor
  · intro sphere hsphere location hlocation
    exact hflat location (List.mem_flatten.mpr ⟨sphere, hsphere, hlocation⟩)
  · intro location hlocation
    exact hrequired location (LocationSet.has_iff_mem_keys.mpr hlocation)
  · intro location hlocation
    have hhas := LocationSet.has_ofList.mp (LocationSet.has_iff_mem_keys.mpr hlocation)
    exact existsIn_iff.mpr (Analysis.mem_allLocations.mp (List.mem_filter.mp hhas).1)
  · intro path hpath location hlocation
    rw [hpaths] at hpath
    rcases RawPath.exists_of_mem_resolve hpath with ⟨raw, hraw, hlocations⟩
    have hraws := hlocations location (LocationSet.has_iff_mem_keys.mpr hlocation)
    exact hrequired location (Analysis.required_of_mem_rawPaths hsame hraw hraws)

/-! ## The whole -/

/-- The log of an analysis of built worlds is made without an access out of range, whatever
valid placement and whatever board of these worlds it is made with, and it is faithful. -/
theorem ofAnalysis_faithful {pathfinder : Pathfinder} {played : Placement} {settings : Settings}
    (hbuilt : ∀ world ∈ worlds, world.Built) (hvalid : placement.ValidFor worlds)
    (hworlds : pathfinder.worlds = worlds)
    (hrun : (Analysis.run pathfinder played settings).result = .ok analysis)
    (hboard : ∀ board, board? = some board → board.ProducedFor worlds) :
    ofAnalysis? worlds placement analysis board? =
        some (ofAnalysis worlds placement analysis board?) ∧
      (ofAnalysis worlds placement analysis board?).Faithful worlds placement analysis board? := by
  subst hworlds
  have hlinked : ∀ player ∈ pathfinder.players, player.world.Linked := fun player hplayer =>
    (hbuilt player.world (List.mem_map.mpr ⟨player, hplayer, rfl⟩)).linked
  have hexist := locationsExist_of_run hlinked hrun
  have hstones := fun board hsome => (hboard board hsome).exists_stone
  constructor
  · exact ofAnalysis?_eq_some hvalid hexist hstones
  · constructor
    case spheres =>
      rw [ofAnalysis, List.map_map]
      apply List.map_congr_left
      intro sphere hsphere
      exact map_locate?_describeLocations hbuilt (hexist.spheres sphere hsphere)
    case required => exact map_locate?_describeLocations hbuilt hexist.required
    case unreachable => exact map_locate?_describeLocations hbuilt hexist.unreachable
    case paths =>
      rw [ofAnalysis, List.map_map]
      apply List.map_congr_left
      intro path hpath
      have hnames : (describeLocations pathfinder.worlds placement path.locations.toList).map
          (locate? pathfinder.worlds) = path.locations.toList.map some :=
        map_locate?_describeLocations hbuilt (hexist.paths path hpath)
      rw [Function.comp_apply, hnames]
    case items =>
      intro entry hentry
      obtain ⟨location, hlocation, rfl⟩ := exists_location_of_mem_entries hexist hentry
      exact ⟨location, locate?_describeLocation hbuilt hlocation,
        namesItem_describeLocation hvalid location⟩
    case hints =>
      cases hsome : board? with
      | none => exact ⟨[], rfl, List.nodup_nil, by simp⟩
      | some board =>
          refine ⟨board.assignments, ?_, board.nodup_assignments, ?_⟩
          · exact map_locateHint?_describeHints hbuilt (hstones board hsome)
          · intro world stone hint
            rw [HintBoard.mem_assignments_iff]
            simp

/-! ### Neighbours

Two players of the meadow, the first of them with a stone in it.  The chest of each holds
the sword of the other. -/

/-- The table of the meadow with a stone. -/
def stonyTable : GameTable :=
  { World.meadowTable with
    areas := .ofList [
      ("Meadow",
        { RawArea.bare with
          locations := .ofList [("Chest", "true")]
          exits := .ofList [("Cave", "event(OPEN) & !setting(hard)")]
          events := .ofList [("OPEN", "SWORD")]
          gossip := .ofList [("Stone", "true")] }),
      ("Cave", { RawArea.bare with locations := .ofList [("Pool", "has(SWORD, 2)")] })]
    gossip := .ofList [("Stone", .stone)] }

/-- The meadow with a stone in it. -/
def stonyMeadow : World :=
  { World.meadow.withArea 1 fun area => { area with gossips := [⟨0, .const true⟩] } with
    gossips := [⟨"OOT Stone", .oot, .stone⟩] }

theorem built_stonyMeadow : stonyMeadow.Built :=
  ⟨[stonyTable], .ofList [("hard", .flag false)], fun _ => .anywhere, rfl⟩

def neighbours : List World :=
  [stonyMeadow, .meadow]

/-- Both are to find their own caves open. -/
def neighbourSolver : Pathfinder where
  players := [⟨stonyMeadow, ⟨#[false]⟩⟩, ⟨.meadow, ⟨#[false]⟩⟩]
  starting := .none 2
  goal := .events [(0, 0), (1, 0)]

/-- The swords are exchanged, and the pools are empty. -/
def exchange : Placement :=
  Placement.empty.insertAll [(⟨0, 0⟩, ⟨1, 0⟩), (⟨1, 0⟩, ⟨0, 0⟩)]

/-- Both chests are required, and the pools take a second sword. -/
def neighbourAnalysis : Analysis where
  spheres := [[⟨0, 0⟩, ⟨1, 0⟩]]
  required := .ofList [⟨0, 0⟩, ⟨1, 0⟩]
  unreachable := .ofList [⟨0, 1⟩, ⟨1, 1⟩]
  paths := [⟨.woth, .ofList [⟨0, 0⟩, ⟨1, 0⟩]⟩]

/-- A call for two hints, about the chest and the pool of the first player. -/
def neighbourCall : Hint.Call :=
  ⟨[⟨0, 0⟩, ⟨0, 1⟩], 0, 2, .ofWords []⟩

/-- What the stone of the first player tells after the call. -/
def neighbourBoard : HintBoard :=
  neighbourCall.boardAfter neighbourSolver exchange (.empty 2)

/-- The log of the neighbours is faithful, and has the hint about the first chest. -/
theorem ofAnalysis_faithful_neighbours :
    (Analysis.run neighbourSolver exchange .default).result = .ok neighbourAnalysis ∧
      (ofAnalysis neighbours exchange neighbourAnalysis (some neighbourBoard)).Faithful neighbours
        exchange neighbourAnalysis (some neighbourBoard) ∧
      (ofAnalysis neighbours exchange neighbourAnalysis (some neighbourBoard)).hints =
        [⟨0, "OOT Stone", .hero ⟨0, 0⟩⟩] := by
  have hbuilt : ∀ world ∈ neighbours, world.Built := by
    simp only [neighbours, List.forall_mem_cons]
    exact ⟨built_stonyMeadow, World.built_meadow, by simp⟩
  have hvalid : exchange.ValidFor neighbours := by
    have hentries : exchange.items.entries = [(⟨0, 0⟩, ⟨1, 0⟩), (⟨1, 0⟩, ⟨0, 0⟩)] := rfl
    rw [Placement.ValidFor, hentries]
    simp only [List.forall_mem_cons]
    exact ⟨⟨⟨_, rfl, by decide⟩, ⟨_, rfl, by decide⟩⟩, ⟨⟨_, rfl, by decide⟩, ⟨_, rfl, by decide⟩⟩,
      by simp⟩
  have hrun : (Analysis.run neighbourSolver exchange .default).result = .ok neighbourAnalysis :=
    rfl
  have hboard : ∀ board, some neighbourBoard = some board → board.ProducedFor neighbours := by
    intro board hsome
    cases hsome
    exact .call exchange neighbourCall (.empty 2) rfl
  exact ⟨hrun, (ofAnalysis_faithful hbuilt hvalid rfl hrun hboard).2, by decide +kernel⟩

end SpoilerLog

end SeedLogic
