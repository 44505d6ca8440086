import SeedLogic.Proofs.Hint.Stones
import SeedLogic.SpoilerLog

/-!
# The spoiler log, access by access

A log passes over the numbers that a world does not have.  Here is the same log in which
no number is passed over: every access goes to the world itself, and there is no log when
one is out of range.  For locations, items and stones that exist, both are the same
(`ofAnalysis?_eq_some`).
-/

namespace SeedLogic

/-- The location is one of the worlds. -/
def Location.ExistsIn (worlds : List World) (location : Location) : Prop :=
  ∃ world, worlds[location.world]? = some world ∧ location.check < world.checks.length

/-- The player has a world, and the item is one of it. -/
def PlayerItem.ExistsIn (worlds : List World) (placed : PlayerItem) : Prop :=
  ∃ world, worlds[placed.player]? = some world ∧ placed.item < world.itemCount

/-- Every item that is placed exists, and so does the location where it lies. -/
def Placement.ValidFor (worlds : List World) (placement : Placement) : Prop :=
  ∀ entry ∈ placement.items.entries, entry.1.ExistsIn worlds ∧ entry.2.ExistsIn worlds

namespace SpoilerLog

/-! ## Accesses -/

/-- The name of an item of a player's world. -/
def itemName? (worlds : List World) (placed : PlayerItem) : Option String := do
  let world ← worlds[placed.player]?
  world.symbols.items.keys[placed.item]?

/-- What the log says about a location. -/
def describeLocation? (worlds : List World) (placement : Placement) (location : Location) :
    Option SpoilerLocation := do
  let world ← worlds[location.world]?
  let check ← world.checks[location.check]?
  match placement.get? location with
  | none => some ⟨location.world, check.name, check.scene, none⟩
  | some placed => do
      let item ← itemName? worlds placed
      some ⟨location.world, check.name, check.scene, some item⟩

/-- What the log says about several locations. -/
def describeLocations? (worlds : List World) (placement : Placement)
    (locations : List Location) : Option (List SpoilerLocation) :=
  locations.mapM (describeLocation? worlds placement)

/-- What the log says about a path. -/
def describePath? (worlds : List World) (placement : Placement) (path : AnalysisPath) :
    Option SpoilerPath := do
  let locations ← describeLocations? worlds placement path.locations.toList
  some ⟨path.kind, locations⟩

/-- What the log says about a stone that has a hint. -/
def describeHint? (worlds : List World) (id : WorldId) (entry : GossipId × Hint) :
    Option SpoilerHint := do
  let world ← worlds[id]?
  let stone ← world.gossips[entry.1]?
  some ⟨id, stone.name, entry.2⟩

/-- The hints of a board, by world and then by stone. -/
def describeHints? (worlds : List World) (board : HintBoard) : Option (List SpoilerHint) := do
  let hints ← board.stones.zipIdx.mapM fun stones =>
    stones.1.entries.mapM (describeHint? worlds stones.2)
  some hints.flatten

/-- The hints of a board, if there is one. -/
def describeBoard? (worlds : List World) : Option HintBoard → Option (List SpoilerHint)
  | none => some []
  | some board => describeHints? worlds board

/-- The log of an analysis, with the hints of a board if there is one. -/
def ofAnalysis? (worlds : List World) (placement : Placement) (analysis : Analysis)
    (board? : Option HintBoard) : Option SpoilerLog := do
  let spheres ← analysis.spheres.mapM (describeLocations? worlds placement)
  let paths ← analysis.paths.mapM (describePath? worlds placement)
  let hints ← describeBoard? worlds board?
  let required ← describeLocations? worlds placement analysis.required.toList
  let unreachable ← describeLocations? worlds placement analysis.unreachable.toList
  some ⟨spheres, required, unreachable, paths, hints⟩

/-! ## What exists is accessed -/

section Worlds

variable {worlds : List World} {placement : Placement}

/-- What is found in a valid placement exists. -/
theorem existsIn_of_get? (hvalid : placement.ValidFor worlds) {location : Location}
    {placed : PlayerItem} (hplaced : placement.get? location = some placed) :
    placed.ExistsIn worlds :=
  (hvalid _ (Dict.find?_eq_some_iff.mp hplaced)).2

theorem itemName?_eq_some {placed : PlayerItem} (hexists : placed.ExistsIn worlds) :
    itemName? worlds placed = some (itemName worlds placed) := by
  rcases hexists with ⟨world, hworld, hlt⟩
  have hitem : world.symbols.items.keys[placed.item]? =
      some world.symbols.items.keys[placed.item] := List.getElem?_eq_getElem hlt
  simp [itemName?, itemName, hworld, hitem]

theorem describeLocation?_eq_some (hvalid : placement.ValidFor worlds) {location : Location}
    (hexists : location.ExistsIn worlds) :
    describeLocation? worlds placement location =
      some (describeLocation worlds placement location) := by
  rcases hexists with ⟨world, hworld, hlt⟩
  have hcheck := List.getElem?_eq_getElem hlt
  cases hplaced : placement.get? location with
  | none => simp [describeLocation?, describeLocation, hworld, hcheck, hplaced]
  | some placed =>
      have hitem := itemName?_eq_some (existsIn_of_get? hvalid hplaced)
      simp [describeLocation?, describeLocation, hworld, hcheck, hplaced, hitem]

theorem describeLocations?_eq_some (hvalid : placement.ValidFor worlds)
    {locations : List Location} (hexist : ∀ location ∈ locations, location.ExistsIn worlds) :
    describeLocations? worlds placement locations =
      some (describeLocations worlds placement locations) :=
  Outcome.mapM_eq_some_map fun location hlocation =>
    describeLocation?_eq_some hvalid (hexist location hlocation)

theorem describeHints?_eq_some {board : HintBoard} (hexist : board.StonesExist worlds) :
    describeHints? worlds board = some (describeHints worlds board) := by
  have hentry : ∀ stones ∈ board.stones.zipIdx, ∀ entry ∈ stones.1.entries,
      describeHint? worlds stones.2 entry =
        some ⟨stones.2, stoneName worlds stones.2 entry.1, entry.2⟩ := by
    intro stones hstones entry hentry
    have hmem : ((stones.2, entry.1), entry.2) ∈ board.assignments :=
      List.mem_flatMap.mpr ⟨stones, hstones, List.mem_map.mpr ⟨entry, hentry, rfl⟩⟩
    rcases hexist _ _ _ (HintBoard.mem_assignments_iff.mp hmem) with ⟨world, hworld, hlt⟩
    have hstone := List.getElem?_eq_getElem hlt
    simp [describeHint?, stoneName, hworld, hstone]
  have hall := Outcome.mapM_eq_some_map fun stones hstones =>
    Outcome.mapM_eq_some_map (hentry stones hstones)
  rw [describeHints?, hall]
  rfl

end Worlds

/-! ## The whole -/

/-- The locations of an analysis are locations of some worlds. -/
structure LocationsExist (worlds : List World) (analysis : Analysis) : Prop where
  spheres : ∀ sphere ∈ analysis.spheres, ∀ location ∈ sphere, location.ExistsIn worlds
  required : ∀ location ∈ analysis.required.toList, location.ExistsIn worlds
  unreachable : ∀ location ∈ analysis.unreachable.toList, location.ExistsIn worlds
  paths : ∀ path ∈ analysis.paths, ∀ location ∈ path.locations.toList, location.ExistsIn worlds

/-- No access is out of range when all locations, items and stones exist. -/
theorem ofAnalysis?_eq_some {worlds : List World} {placement : Placement} {analysis : Analysis}
    {board? : Option HintBoard} (hvalid : placement.ValidFor worlds)
    (hexist : LocationsExist worlds analysis)
    (hboard : ∀ board, board? = some board → board.StonesExist worlds) :
    ofAnalysis? worlds placement analysis board? =
      some (ofAnalysis worlds placement analysis board?) := by
  have hspheres : analysis.spheres.mapM (describeLocations? worlds placement) =
      some (analysis.spheres.map (describeLocations worlds placement)) :=
    Outcome.mapM_eq_some_map fun sphere hsphere =>
      describeLocations?_eq_some hvalid (hexist.spheres sphere hsphere)
  have hpaths : analysis.paths.mapM (describePath? worlds placement) =
      some (analysis.paths.map fun path =>
        ⟨path.kind, describeLocations worlds placement path.locations.toList⟩) := by
    apply Outcome.mapM_eq_some_map
    intro path hpath
    rw [describePath?, describeLocations?_eq_some hvalid (hexist.paths path hpath)]
    rfl
  have hhints : describeBoard? worlds board? =
      some ((board?.map (describeHints worlds)).getD []) := by
    cases hsome : board? with
    | none => rfl
    | some board => exact describeHints?_eq_some (hboard board hsome)
  rw [ofAnalysis?, hspheres, hpaths, hhints, describeLocations?_eq_some hvalid hexist.required,
    describeLocations?_eq_some hvalid hexist.unreachable]
  rfl

end SpoilerLog

end SeedLogic
