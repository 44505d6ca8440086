import SeedLogic.Proofs.Symbols.Register
import SeedLogic.Proofs.World.Declarations

/-!
# Names of places

The names of areas, checks and hint stones are interned while tables are loaded: each kind of
place has a register beside the list of what is described.  Registers and lists stay in step
from one declaration to the next (`Interned.InStep.declare`), so that a name is looked up
among what a world has as in the registers (`World.lookups_of_build`).
-/

namespace SeedLogic

/-! ## One kind of place -/

namespace Register

variable {register : Register String} {names : List String}

/-- A register holds names: its vector lists them in order, and its map has their places. -/
def Holds (register : Register String) (names : List String) : Prop :=
  ∃ table : NameTable String, register.InStep table ∧ table.keys = names

theorem holds_empty : (empty : Register String).Holds [] :=
  ⟨.empty, inStep_empty, rfl⟩

/-- A new name is added at the end. -/
theorem Holds.add (hholds : register.Holds names) {name : String} (hnew : name ∉ names) :
    (register.add name).Holds (names ++ [name]) := by
  rcases hholds with ⟨table, hstep, rfl⟩
  exact ⟨table.add name, hstep.add name, by rw [NameTable.keys_add, if_neg hnew]⟩

theorem Holds.keys_eq (hholds : register.Holds names) : register.keys = names := by
  rcases hholds with ⟨table, hstep, rfl⟩
  exact hstep.keys

/-- The map finds a name at the first entry that has it. -/
theorem Holds.get?_eq {α : Type} {entries : List α} {name : α → String}
    (hholds : register.Holds (entries.map name)) (wanted : String) :
    register.get? wanted = entries.findIdx? fun entry => name entry == wanted := by
  rcases hholds with ⟨table, hstep, hkeys⟩
  have hnodup : (entries.map name).Nodup := hkeys ▸ table.nodup
  refine Option.ext fun id => ?_
  rw [hstep.get?, NameTable.get?_eq_some_iff, findIdx?_eq_some_iff_of_nodup hnodup, hkeys,
    List.getElem?_map, Option.map_eq_some_iff]

end Register

/-! ## All places -/

/-- The names of the places described so far, in a register for each kind. -/
structure Interned where
  areas : Register String
  checks : Register String
  stones : Register String

namespace Interned

def empty : Interned :=
  ⟨.empty, .empty, .empty⟩

/-- Intern the name of a place. -/
def add (interned : Interned) : Site → Interned
  | .area name => { interned with areas := interned.areas.add name }
  | .check name => { interned with checks := interned.checks.add name }
  | .stone name => { interned with stones := interned.stones.add name }

/-- Intern the name of the place that a declaration describes, if it does so. -/
def declare (interned : Interned) (declaration : Declaration) : Interned :=
  (declaration.site?.map interned.add).getD interned

/-- The names that are interned when tables are loaded. -/
def ofTables (tables : List GameTable) : Interned :=
  (tables.flatMap GameTable.declarations).foldl declare empty

/-! ### Drafts -/

/-- Every register holds the names of the list beside which it stands. -/
structure InStep (interned : Interned) (draft : Draft) : Prop where
  areas : interned.areas.Holds (draft.areas.map AreaDraft.name)
  checks : interned.checks.Holds (draft.checks.map Check.name)
  stones : interned.stones.Holds (draft.gossips.map GossipStone.name)

variable {interned : Interned} {constraint : String → Constraint} {draft next : Draft}

theorem inStep_empty : empty.InStep .empty :=
  ⟨Register.holds_empty, Register.holds_empty, Register.holds_empty⟩

/-- Each entry of a table is loaded into the lists and into the registers. -/
theorem InStep.declare {declaration : Declaration} (hstep : interned.InStep draft)
    (hload : draft.declare constraint declaration = .ok next) :
    (interned.declare declaration).InStep next := by
  cases declaration with
  | area language entry =>
      rcases Draft.loadArea_eq_ok_iff.mp hload with ⟨hnew, _, _, _, _, _, _, _, _, -, -, -, -, rfl⟩
      refine ⟨?_, hstep.checks, hstep.stones⟩
      rw [List.map_append, List.map_singleton]
      exact hstep.areas.add hnew
  | item name =>
      cases hload
      exact ⟨hstep.areas, hstep.checks, hstep.stones⟩
  | check game raw =>
      rcases Draft.loadCheck_eq_ok_iff.mp hload with ⟨hnew, kind, -, rfl⟩
      refine ⟨hstep.areas, ?_, hstep.stones⟩
      rw [List.map_append, List.map_singleton]
      exact hstep.checks.add (by simpa using hnew)
  | stone game entry =>
      rcases Draft.loadGossip_eq_ok_iff.mp hload with ⟨hnew, rfl⟩
      refine ⟨hstep.areas, hstep.checks, ?_⟩
      rw [List.map_append, List.map_singleton]
      exact hstep.stones.add (by simpa using hnew)
  | start name =>
      cases hload
      exact ⟨hstep.areas, hstep.checks, hstep.stones⟩

theorem InStep.declareAll {declarations : List Declaration} (hstep : interned.InStep draft)
    (hload : declarations.foldlM (Draft.declare constraint) draft = .ok next) :
    (declarations.foldl Interned.declare interned).InStep next := by
  induction declarations generalizing interned draft with
  | nil =>
      cases hload
      exact hstep
  | cons declaration declarations ih =>
      rw [List.foldlM_cons] at hload
      rcases Outcome.bind_eq_ok.mp hload with ⟨middle, hfirst, hrest⟩
      exact ih (hstep.declare hfirst) hrest

/-! ### Worlds -/

/-- Every register holds the names of the list beside which it stands, in a world. -/
structure Serves (interned : Interned) (world : World) : Prop where
  areas : interned.areas.Holds (world.areas.map Area.name)
  checks : interned.checks.Holds (world.checks.map Check.name)
  stones : interned.stones.Holds (world.gossips.map GossipStone.name)

variable {world : World}

/-- Linking keeps the names of all places. -/
theorem InStep.link {options : Options} (hstep : interned.InStep draft)
    (hlink : draft.link options = .ok world) : interned.Serves world := by
  rcases Draft.link_eq_ok_iff.mp hlink with ⟨areas, starts, hareas, -, -, rfl⟩
  constructor
  case areas => exact (Draft.names_of_linkAreas hareas).symm ▸ hstep.areas
  case checks => exact (Draft.names_foldl_tagChecks areas draft.checks).symm ▸ hstep.checks
  case stones => exact hstep.stones

/-- The registers still serve when an area is changed and keeps its name. -/
theorem Serves.withArea (hserves : interned.Serves world) (id : AreaId) {change : Area → Area}
    (hname : ∀ area, (change area).name = area.name) :
    interned.Serves (world.withArea id change) := by
  have hnames : (world.areas.modify id change).map Area.name = world.areas.map Area.name := by
    apply List.ext_getElem?
    intro index
    rw [List.getElem?_map, List.getElem?_map, List.getElem?_modify]
    split <;> simp [Function.comp_def, hname]
  exact ⟨hnames.symm ▸ hserves.areas, hserves.checks, hserves.stones⟩

end Interned

/-! ## Built worlds -/

/-- The vectors that are filled while the tables of a world are loaded list the names of its
areas, checks and hint stones, and its lookups answer as the maps beside them, even when an
area has been changed and has kept its name. -/
theorem World.lookups_of_build {tables : List GameTable} {options : Options}
    {constraint : String → Constraint} {world : World}
    (hbuild : (build tables options constraint).result = .ok world) (id : AreaId)
    {change : Area → Area} (hname : ∀ area, (change area).name = area.name) :
    let interned := Interned.ofTables tables
    let changed := world.withArea id change
    (interned.areas.keys = changed.areas.map Area.name ∧
      ∀ name, changed.areaId? name = interned.areas.get? name) ∧
    (interned.checks.keys = changed.checks.map Check.name ∧
      ∀ name, changed.checkId? name = interned.checks.get? name) ∧
    interned.stones.keys = changed.gossips.map GossipStone.name ∧
      ∀ name, changed.gossipId? name = interned.stones.get? name := by
  intro interned changed
  rcases build_eq_ok_iff.mp hbuild with ⟨draft, hload, hlink⟩
  have hstep : interned.InStep draft :=
    Interned.inStep_empty.declareAll (Draft.loadAll_eq_ok_iff.mp hload).2
  have hserves := (hstep.link hlink).withArea id hname
  exact ⟨⟨hserves.areas.keys_eq, fun name => (hserves.areas.get?_eq name).symm⟩,
    ⟨hserves.checks.keys_eq, fun name => (hserves.checks.get?_eq name).symm⟩,
    hserves.stones.keys_eq, fun name => (hserves.stones.get?_eq name).symm⟩

end SeedLogic
