import SeedLogic.Proofs.Pathfinder.NamedSearch
import SeedLogic.Proofs.World.Stock

/-!
# Placements by name

What a placement says is determined by the names of slots and items.  The vanilla placement
has one entry for each check (`Placement.isVanilla_vanilla`), and a placement by name is
found exactly when all its names are those of the worlds (`Placement.exists_ofNames_iff`).
The vanilla placement is the one of the names that the worlds themselves have
(`Placement.placements_by_name`).
-/

namespace SeedLogic

/-- What the checks of a world hold originally, by name. -/
def World.vanillaNames (world : World) : Dict String String :=
  .ofList (world.checks.map fun check => (check.name, check.item))

namespace Placement

/-- One entry for each check, which gives the own player the item that the check holds
originally, and no others. -/
structure IsVanilla (worlds : List World) (placement : Placement) : Prop where
  once : ∀ {id : WorldId} {check : CheckId} {world : World} {original : Check},
    worlds[id]? = some world → world.checks[check]? = some original →
      ∃! entry, entry ∈ placement.items.entries ∧ entry.1 = ⟨id, check⟩
  get?_iff : ∀ {location : Location} {placed : PlayerItem},
    placement.get? location = some placed ↔ ∃ world original,
      worlds[location.world]? = some world ∧
        world.checks[location.check]? = some original ∧
        placed.player = location.world ∧ world.itemName? placed.item = some original.item

/-- All slots and items that a player names are those of the own world. -/
def NamesExist (worlds : List World) (names : List (Dict String String)) : Prop :=
  ∀ {id : WorldId} {world : World} {slots : Dict String String},
    worlds[id]? = some world → names[id]? = some slots →
      ∀ {slot item : String}, slots.find? slot = some item →
        (∃ check ∈ world.checks, check.name = slot) ∧ item ∈ world.symbols.items.keys

/-- At each location lies the item that the player names for the slot, for this player. -/
def SaysNames (worlds : List World) (names : List (Dict String String)) (placement : Placement) :
    Prop :=
  ∀ {location : Location} {placed : PlayerItem},
    placement.get? location = some placed ↔ placed.player = location.world ∧
      ∃ world slots slot item, worlds[location.world]? = some world ∧
        names[location.world]? = some slots ∧
        world.checkName? location.check = some slot ∧
        world.itemName? placed.item = some item ∧ slots.find? slot = some item

/-! ## Slots -/

theorem mem_zip_zipIdx_iff {α β : Type} {left : List α} {right : List β} {entry : (α × β) × Nat} :
    entry ∈ (left.zip right).zipIdx ↔
      left[entry.2]? = some entry.1.1 ∧ right[entry.2]? = some entry.1.2 := by
  rw [List.mem_zipIdx_iff_getElem?, List.getElem?_zip_eq_some]

/-- The slots of all players are the slots that each of them names in the own world. -/
theorem mem_slots_iff {worlds : List World} {names : List (Dict String String)}
    {slots : List (List (Location × PlayerItem))}
    (hslots : (worlds.zip names).zipIdx.mapM ofSlots = .ok slots) {location : Location}
    {placed : PlayerItem} :
    (location, placed) ∈ slots.flatten ↔ ∃ world own entry,
      worlds[location.world]? = some world ∧ names[location.world]? = some own ∧
        entry ∈ own.entries ∧ ofSlot world location.world entry = .ok (location, placed) := by
  rw [List.mem_flatten]
  constructor
  · rintro ⟨part, hpart, hmem⟩
    rcases Outcome.exists_of_mem_mapM hslots hpart with ⟨⟨⟨world, own⟩, id⟩, hplayer, hread⟩
    rcases mem_zip_zipIdx_iff.mp hplayer with ⟨hworld, hown⟩
    rcases Outcome.exists_of_mem_mapM hread hmem with ⟨entry, hentry, hslot⟩
    rcases ofSlot_eq_ok_iff.mp hslot with ⟨check, item, -, -, heq⟩
    cases heq
    exact ⟨world, own, entry, hworld, hown, hentry, hslot⟩
  · rintro ⟨world, own, entry, hworld, hown, hentry, hslot⟩
    have hplayer : ((world, own), location.world) ∈ (worlds.zip names).zipIdx :=
      mem_zip_zipIdx_iff.mpr ⟨hworld, hown⟩
    rcases List.mem_iff_getElem?.mp hplayer with ⟨place, hplace⟩
    rcases Outcome.getElem?_mapM hslots hplace with ⟨part, hpart, hread⟩
    refine ⟨part, List.mem_of_getElem? hpart, ?_⟩
    exact (Outcome.mem_mapM_iff hread).mpr ⟨entry, hentry, hslot⟩

/-- A placement by name is made of the slots of all players. -/
theorem ofNames_iff {worlds : List World} {names : List (Dict String String)}
    {placement : Placement} :
    ofNames worlds names = .ok placement ↔ names.length ≤ worlds.length ∧
      ∃ slots, (worlds.zip names).zipIdx.mapM ofSlots = .ok slots ∧
        placement = empty.insertAll slots.flatten := by
  unfold ofNames
  split
  case isTrue hmore =>
    constructor
    · intro hfail
      cases hfail
    · rintro ⟨hle, -⟩
      exact absurd hmore (Nat.not_lt_of_le hle)
  case isFalse hfew =>
    rw [Outcome.bind_eq_ok]
    constructor
    · rintro ⟨slots, hslots, hplacement⟩
      cases hplacement
      exact ⟨Nat.le_of_not_lt hfew, slots, hslots, rfl⟩
    · rintro ⟨-, slots, hslots, rfl⟩
      exact ⟨slots, hslots, rfl⟩

section Coherent

variable {worlds : List World} (hcoherent : ∀ world ∈ worlds,
  ∃ tables options, world.Coherent tables options) {names : List (Dict String String)}
include hcoherent

/-- A slot of a world is found when its names exist there. -/
theorem exists_ofSlot_iff {id : WorldId} {world : World} (hworld : worlds[id]? = some world)
    {entry : String × String} :
    (∃ result, ofSlot world id entry = .ok result) ↔
      (∃ check ∈ world.checks, check.name = entry.1) ∧ entry.2 ∈ world.symbols.items.keys := by
  rcases hcoherent world (List.mem_of_getElem? hworld) with ⟨tables, options, hcoherent⟩
  rw [List.mem_iff_getElem?]
  constructor
  · rintro ⟨⟨location, placed⟩, hslot⟩
    rcases (NamedSearch.ofSlot_iff hcoherent).mp hslot with ⟨-, -, hcheck, hitem⟩
    rw [World.checkName?, List.getElem?_map, Option.map_eq_some_iff] at hcheck
    rcases hcheck with ⟨check, hcheck, hname⟩
    exact ⟨⟨check, List.mem_of_getElem? hcheck, hname⟩, placed.item, hitem⟩
  · rintro ⟨⟨check, hcheck, hname⟩, item, hitem⟩
    rcases List.mem_iff_getElem?.mp hcheck with ⟨place, hplace⟩
    refine ⟨(⟨id, place⟩, ⟨id, item⟩), (NamedSearch.ofSlot_iff hcoherent).mpr
      ⟨rfl, rfl, ?_, hitem⟩⟩
    rw [World.checkName?, List.getElem?_map, hplace, Option.map_some, hname]

/-- The slots of all players are found when their names exist. -/
theorem exists_slots_iff :
    (∃ slots, (worlds.zip names).zipIdx.mapM ofSlots = .ok slots) ↔ NamesExist worlds names := by
  rw [Outcome.exists_mapM_iff]
  constructor
  · intro hall id world slots hworld hslots slot item hfind
    have hfound := hall ((world, slots), id) (mem_zip_zipIdx_iff.mpr ⟨hworld, hslots⟩)
    exact (exists_ofSlot_iff hcoherent hworld).mp
      (Outcome.exists_mapM_iff.mp hfound (slot, item) (Dict.find?_eq_some_iff.mp hfind))
  · rintro hnames ⟨⟨world, slots⟩, id⟩ hmem
    rcases mem_zip_zipIdx_iff.mp hmem with ⟨hworld, hslots⟩
    refine Outcome.exists_mapM_iff.mpr fun entry hentry => ?_
    exact (exists_ofSlot_iff hcoherent hworld).mpr
      (hnames hworld hslots (Dict.find?_eq_some_iff.mpr hentry))

section Slots

variable {slots : List (List (Location × PlayerItem))}
  (hslots : (worlds.zip names).zipIdx.mapM ofSlots = .ok slots)
include hslots

/-- No location is given two items. -/
theorem agree_flatten : Dict.Agree slots.flatten := by
  intro location placed other hplaced hother
  rcases (mem_slots_iff hslots).mp hplaced with
    ⟨world, own, first, hworld, hown, hfirst, hplaced⟩
  rcases (mem_slots_iff hslots).mp hother with
    ⟨_, _, second, hsame, hagain, hsecond, hother⟩
  cases hworld.symm.trans hsame
  cases hown.symm.trans hagain
  rcases hcoherent world (List.mem_of_getElem? hworld) with ⟨tables, options, hcoherent⟩
  exact NamedSearch.eq_of_ofSlot hcoherent hfirst hsecond hplaced hother

/-- The slots of all players, placed, say what the players name. -/
theorem saysNames_insertAll : SaysNames worlds names (empty.insertAll slots.flatten) := by
  intro location placed
  rw [get?_insertAll_empty (agree_flatten hcoherent hslots), mem_slots_iff hslots]
  constructor
  · rintro ⟨world, own, entry, hworld, hown, hentry, hslot⟩
    rcases hcoherent world (List.mem_of_getElem? hworld) with ⟨tables, options, hcoherent⟩
    rcases (NamedSearch.ofSlot_iff hcoherent).mp hslot with ⟨-, hplayer, hcheck, hitem⟩
    exact ⟨hplayer, world, own, _, _, hworld, hown, hcheck, hitem,
      Dict.find?_eq_some_iff.mpr hentry⟩
  · rintro ⟨hplayer, world, own, slot, item, hworld, hown, hcheck, hitem, hfind⟩
    rcases hcoherent world (List.mem_of_getElem? hworld) with ⟨tables, options, hcoherent⟩
    exact ⟨world, own, (slot, item), hworld, hown, Dict.find?_eq_some_iff.mp hfind,
      (NamedSearch.ofSlot_iff hcoherent).mpr ⟨rfl, hplayer, hcheck, hitem⟩⟩

end Slots

/-- A placement by name is found when the names exist. -/
theorem exists_ofNames_iff :
    (∃ placement, ofNames worlds names = .ok placement) ↔
      names.length ≤ worlds.length ∧ NamesExist worlds names := by
  rw [← exists_slots_iff hcoherent]
  simp only [ofNames_iff]
  constructor
  · rintro ⟨_, hle, slots, hslots, -⟩
    exact ⟨hle, slots, hslots⟩
  · rintro ⟨hle, slots, hslots⟩
    exact ⟨_, hle, slots, hslots, rfl⟩

theorem saysNames_of_ofNames {placement : Placement}
    (hplacement : ofNames worlds names = .ok placement) : SaysNames worlds names placement := by
  rcases ofNames_iff.mp hplacement with ⟨-, slots, hslots, rfl⟩
  exact saysNames_insertAll hcoherent hslots

end Coherent

/-! ## The vanilla placement -/

/-- What the vanilla placement is made of. -/
theorem mem_vanillaItems_iff {worlds : List World} {location : Location} {placed : PlayerItem} :
    ((location, placed) ∈ worlds.zipIdx.flatMap fun entry =>
        entry.1.checks.zipIdx.filterMap (vanillaItem? entry.1 entry.2)) ↔
      ∃ world original, worlds[location.world]? = some world ∧
        world.checks[location.check]? = some original ∧
        placed.player = location.world ∧ world.itemName? placed.item = some original.item := by
  rcases location with ⟨place, check⟩
  rcases placed with ⟨player, item⟩
  simp only [List.mem_flatMap, List.mem_filterMap, List.mem_zipIdx_iff_getElem?, vanillaItem?,
    Option.map_eq_some_iff, World.itemId?, NameTable.get?_eq_some_iff, World.itemName?]
  constructor
  · rintro ⟨⟨world, _⟩, hworld, ⟨original, _⟩, horiginal, _, hitem, heq⟩
    cases heq
    exact ⟨world, original, hworld, horiginal, rfl, hitem⟩
  · rintro ⟨world, original, hworld, horiginal, rfl, hitem⟩
    exact ⟨(world, _), hworld, (original, check), horiginal, item, hitem, rfl⟩

/-- Each check lies in the vanilla placement with its own item. -/
theorem get?_vanilla_iff {worlds : List World} {location : Location} {placed : PlayerItem} :
    (vanilla worlds).get? location = some placed ↔ ∃ world original,
      worlds[location.world]? = some world ∧
        world.checks[location.check]? = some original ∧
        placed.player = location.world ∧ world.itemName? placed.item = some original.item := by
  rw [vanilla, get?_insertAll_empty, mem_vanillaItems_iff]
  rintro location ⟨player, item⟩ ⟨receiver, twin⟩ hplaced hother
  rcases mem_vanillaItems_iff.mp hplaced with ⟨world, original, hworld, horiginal, rfl, hitem⟩
  rcases mem_vanillaItems_iff.mp hother with ⟨_, _, hsame, hagain, rfl, htwin⟩
  cases hworld.symm.trans hsame
  cases horiginal.symm.trans hagain
  obtain rfl : item = twin := World.eq_of_getElem?_eq world.symbols.items.nodup hitem htwin
  rfl

section Built

variable {worlds : List World} (hbuilt : ∀ world ∈ worlds, world.Built)
include hbuilt

theorem exists_coherent : ∀ world ∈ worlds, ∃ tables options, world.Coherent tables options := by
  intro world hworld
  rcases hbuilt world hworld with ⟨tables, options, constraint, hbuild⟩
  exact ⟨tables, options, World.coherent_of_build hbuild⟩

theorem isVanilla_vanilla : IsVanilla worlds (vanilla worlds) := by
  refine ⟨fun {id check world original} hworld horiginal => ?_, get?_vanilla_iff⟩
  have hitem := (hbuilt world (List.mem_of_getElem? hworld)).item_mem horiginal
  rcases List.mem_iff_getElem?.mp hitem with ⟨item, hitem⟩
  have hplaced : (vanilla worlds).get? ⟨id, check⟩ = some ⟨id, item⟩ :=
    get?_vanilla_iff.mpr ⟨world, original, hworld, horiginal, rfl, hitem⟩
  refine ⟨(⟨id, check⟩, ⟨id, item⟩), ⟨Dict.find?_eq_some_iff.mp hplaced, rfl⟩, ?_⟩
  rintro ⟨location, other⟩ ⟨hother, rfl⟩
  have hsame := Dict.find?_eq_some_iff.mpr hother
  cases hplaced.symm.trans hsame
  rfl

/-- A world names the items of its checks. -/
theorem find?_vanillaNames_iff {world : World} (hworld : world ∈ worlds) {slot item : String} :
    world.vanillaNames.find? slot = some item ↔
      ∃ check ∈ world.checks, check.name = slot ∧ check.item = item := by
  rcases exists_coherent hbuilt world hworld with ⟨tables, options, hcoherent⟩
  rw [World.vanillaNames, Dict.find?_ofList_iff]
  · simp only [List.mem_map, Prod.mk.injEq]
  · intro slot first second hfirst hsecond
    rcases List.mem_map.mp hfirst with ⟨check, hcheck, hfirst⟩
    rcases List.mem_map.mp hsecond with ⟨other, hother, hsecond⟩
    cases hfirst
    have hname : check.name = other.name := congrArg Prod.fst hsecond.symm
    obtain rfl : check = other := List.inj_on_of_nodup_map hcoherent.checks hcheck hother hname
    cases hsecond
    rfl

theorem find?_vanillaNames {world : World} (hworld : world ∈ worlds) {id : CheckId} {check : Check}
    (hcheck : world.checks[id]? = some check) :
    world.vanillaNames.find? check.name = some check.item :=
  (find?_vanillaNames_iff hbuilt hworld).mpr ⟨check, List.mem_of_getElem? hcheck, rfl, rfl⟩

theorem namesExist_vanillaNames : NamesExist worlds (worlds.map World.vanillaNames) := by
  intro id world slots hworld hslots slot item hfind
  rw [List.getElem?_map, hworld] at hslots
  cases hslots
  have hmem := List.mem_of_getElem? hworld
  rcases (find?_vanillaNames_iff hbuilt hmem).mp hfind with ⟨check, hcheck, hname, rfl⟩
  rcases List.mem_iff_getElem?.mp hcheck with ⟨place, hplace⟩
  exact ⟨⟨check, hcheck, hname⟩, (hbuilt world hmem).item_mem hplace⟩

/-- The vanilla placement is the one that the worlds name themselves. -/
theorem ofNames_vanillaNames :
    ofNames worlds (worlds.map World.vanillaNames) = .ok (vanilla worlds) := by
  have hcoherent := exists_coherent hbuilt
  obtain ⟨placement, hplacement⟩ := (exists_ofNames_iff hcoherent).mpr
    ⟨Nat.le_of_eq (List.length_map _), namesExist_vanillaNames hbuilt⟩
  have hsays : SaysNames worlds (worlds.map World.vanillaNames) placement :=
    saysNames_of_ofNames hcoherent hplacement
  have hsame : ∀ location placed, placement.items.find? location = some placed ↔
      (vanilla worlds).items.find? location = some placed := by
    intro location placed
    refine Iff.trans hsays (Iff.trans ?_ get?_vanilla_iff.symm)
    constructor
    · rintro ⟨hplayer, world, own, slot, item, hworld, hown, hcheck, hitem, hfind⟩
      rw [List.getElem?_map, hworld] at hown
      cases hown
      rw [World.checkName?, List.getElem?_map, Option.map_eq_some_iff] at hcheck
      rcases hcheck with ⟨original, horiginal, rfl⟩
      have hown := find?_vanillaNames hbuilt (List.mem_of_getElem? hworld) horiginal
      cases hown.symm.trans hfind
      exact ⟨world, original, hworld, horiginal, hplayer, hitem⟩
    · rintro ⟨world, original, hworld, horiginal, hplayer, hitem⟩
      refine ⟨hplayer, world, world.vanillaNames, original.name, original.item, hworld, ?_, ?_,
        hitem, find?_vanillaNames hbuilt (List.mem_of_getElem? hworld) horiginal⟩
      · rw [List.getElem?_map, hworld, Option.map_some]
      · rw [World.checkName?, List.getElem?_map, horiginal, Option.map_some]
  have heq : placement = vanilla worlds := congrArg Placement.mk (Dict.ext_find? hsame)
  rwa [← heq]

end Built

/-- Placements by name are complete, and the vanilla placement is one of them. -/
theorem placements_by_name {worlds : List World} (hbuilt : ∀ world ∈ worlds, world.Built) :
    IsVanilla worlds (vanilla worlds) ∧
    ofNames worlds (worlds.map World.vanillaNames) = .ok (vanilla worlds) ∧
    ∀ names, ((∃ placement, ofNames worlds names = .ok placement) ↔
        names.length ≤ worlds.length ∧ NamesExist worlds names) ∧
      ∀ placement, ofNames worlds names = .ok placement → SaysNames worlds names placement :=
  have hcoherent := exists_coherent hbuilt
  ⟨isVanilla_vanilla hbuilt, ofNames_vanillaNames hbuilt, fun _ =>
    ⟨exists_ofNames_iff hcoherent, fun _ => saysNames_of_ofNames hcoherent⟩⟩

/-- Two players with the same meadow. -/
theorem placements_by_name_meadows :
    (∀ world ∈ [World.meadow, World.meadow], world.Built) ∧
      IsVanilla [.meadow, .meadow] (vanilla [.meadow, .meadow]) ∧
      ofNames [.meadow, .meadow] [World.meadow.vanillaNames, World.meadow.vanillaNames] =
        .ok (vanilla [.meadow, .meadow]) ∧
      (vanilla [.meadow, .meadow]).get? ⟨1, 0⟩ = some ⟨1, 0⟩ := by
  have hbuilt : ∀ world ∈ [World.meadow, World.meadow], world.Built := by
    simpa using World.built_meadow
  rcases placements_by_name hbuilt with ⟨hvanilla, hnames, -⟩
  exact ⟨hbuilt, hvanilla, hnames, rfl⟩

end Placement

end SeedLogic
