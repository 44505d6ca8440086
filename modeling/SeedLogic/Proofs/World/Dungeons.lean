import Mathlib.Data.List.Induction
import SeedLogic.Proofs.World.Consistency

/-!
# Dungeons

Which checks belong to a dungeon is kept twice: an index lists the checks of each dungeon,
and each check names its dungeon.  Both are made from the tags of the areas that list a
check (`World.tags`), location by location.  The index has all of them
(`indexes_foldl_indexChecks`) and the check the last one (`getElem?_foldl_tagChecks`), so that
they agree on a check whose tags are all the same, and on no other (`dungeons_of_build`).
-/

namespace SeedLogic

/-! ## Tags -/

/-- Does the area list a check? -/
def Area.lists (area : Area) (id : CheckId) : Bool :=
  area.locations.any fun gate => gate.target == id

theorem Area.lists_iff {area : Area} {id : CheckId} :
    area.lists id = true ↔ ∃ gate ∈ area.locations, gate.target = id := by
  simp [lists]

/-- The dungeon that an area says a check belongs to. -/
def Area.tag? (area : Area) (id : CheckId) : Option String :=
  if area.lists id then area.dungeon? else none

/-- The dungeons that areas say a check belongs to, in the order of the areas. -/
def World.tags (world : World) (id : CheckId) : List String :=
  world.areas.filterMap fun area => area.tag? id

theorem Area.tag?_eq_some_iff {area : Area} {id : CheckId} {dungeon : String} :
    area.tag? id = some dungeon ↔ area.dungeon? = some dungeon ∧ area.lists id = true := by
  unfold tag?
  split <;> simp [*]

theorem World.mem_tags_iff {world : World} {id : CheckId} {dungeon : String} :
    dungeon ∈ world.tags id ↔ ∃ area ∈ world.areas, area.dungeon? = some dungeon ∧
      ∃ gate ∈ area.locations, gate.target = id := by
  simp only [tags, List.mem_filterMap, Area.tag?_eq_some_iff, Area.lists_iff]

/-! ## The dungeons of checks -/

/-- The check with a tag, if there is one. -/
def Check.tagged (tag? : Option String) (check : Check) : Check :=
  { check with dungeon? := tag?.or check.dungeon? }

@[simp]
theorem Check.tagged_none : Check.tagged none = id :=
  rfl

theorem Check.tagged_comp (late? early? : Option String) :
    Check.tagged late? ∘ Check.tagged early? = Check.tagged (late?.or early?) := by
  funext check
  simp [tagged, Option.or_assoc]

namespace Draft

theorem getElem?_tagCheck (dungeon : String) (checks : List Check) (gate : Gate) (id : CheckId) :
    (tagCheck dungeon checks gate)[id]? =
      checks[id]?.map (Check.tagged (if gate.target = id then some dungeon else none)) := by
  rw [tagCheck, List.getElem?_modify]
  split <;> rfl

theorem getElem?_foldl_tagCheck (dungeon : String) (gates : List Gate) (checks : List Check)
    (id : CheckId) :
    (gates.foldl (tagCheck dungeon) checks)[id]? =
      checks[id]?.map
        (Check.tagged (if gates.any fun gate => gate.target == id then some dungeon else none)) := by
  induction gates generalizing checks with
  | nil => simp
  | cons gate gates ih =>
      rw [List.foldl_cons, ih, getElem?_tagCheck, Option.map_map, Check.tagged_comp, List.any_cons]
      by_cases htarget : gate.target = id
      · rw [if_pos htarget, beq_iff_eq.mpr htarget, Bool.true_or, if_pos rfl]
        split <;> rfl
      · rw [if_neg htarget, Option.or_none, beq_eq_false_iff_ne.mpr htarget, Bool.false_or]

/-- An area tags the checks that it lists. -/
theorem getElem?_tagChecks (checks : List Check) (area : Area) (id : CheckId) :
    (tagChecks checks area)[id]? = checks[id]?.map (Check.tagged (area.tag? id)) := by
  unfold tagChecks Area.tag?
  split
  case h_1 dungeon hdungeon => rw [getElem?_foldl_tagCheck, Area.lists, hdungeon]
  case h_2 hdungeon => simp [hdungeon]

/-- Of the tags of a check, the last one stays. -/
theorem getElem?_foldl_tagChecks (areas : List Area) (checks : List Check) (id : CheckId) :
    (areas.foldl tagChecks checks)[id]? =
      checks[id]?.map (Check.tagged (areas.filterMap fun area => area.tag? id).getLast?) := by
  induction areas using List.reverseRecOn with
  | nil => simp
  | append_singleton areas area ih =>
      have hlast : ([area].filterMap fun area => area.tag? id).getLast? = area.tag? id := by
        cases htag : area.tag? id <;> simp [htag]
      rw [List.foldl_append, List.foldl_cons, List.foldl_nil, getElem?_tagChecks, ih,
        Option.map_map, Check.tagged_comp, List.filterMap_append, List.getLast?_append, hlast]

/-! ## Loading -/

/-- No check has been tagged yet. -/
def Untagged (draft : Draft) : Prop :=
  ∀ check ∈ draft.checks, check.dungeon? = none

theorem Untagged.declare {constraint : String → Constraint} {draft next : Draft}
    {declaration : Declaration} (huntagged : draft.Untagged)
    (hload : draft.declare constraint declaration = .ok next) : next.Untagged := by
  cases declaration with
  | area language entry =>
      rcases loadArea_follows hload with ⟨area, symbols, _, _, _, rfl⟩
      exact huntagged
  | item name =>
      cases hload
      exact huntagged
  | check game raw =>
      rcases loadCheck_eq_ok_iff.mp hload with ⟨-, kind, -, rfl⟩
      intro check hcheck
      rcases List.mem_append.mp hcheck with hold | hnew
      · exact huntagged check hold
      · cases List.mem_singleton.mp hnew
        rfl
  | stone game entry =>
      rcases loadGossip_eq_ok_iff.mp hload with ⟨-, rfl⟩
      exact huntagged
  | start name =>
      cases hload
      exact huntagged

/-- Loading tables tags no check. -/
theorem untagged_of_loadAll {constraint : String → Constraint} {tables : List GameTable}
    {draft : Draft} (hload : (loadAll constraint .empty tables).result = .ok draft) :
    draft.Untagged :=
  Outcome.foldlM_preserves Untagged.declare (fun _ hcheck => absurd hcheck List.not_mem_nil)
    (loadAll_eq_ok_iff.mp hload).2

/-! ## The index of dungeons -/

theorem mem_insertCheck {id other : CheckId} {ids : List CheckId} :
    other ∈ insertCheck id ids ↔ other = id ∨ other ∈ ids := by
  induction ids with
  | nil => simp [insertCheck]
  | cons first ids ih =>
      rw [insertCheck]
      split
      case isTrue => rw [List.mem_cons]
      case isFalse =>
        split
        case isTrue heq => simp [heq]
        case isFalse => rw [List.mem_cons, ih, List.mem_cons, or_left_comm]

/-- The index has a check under a dungeon. -/
def Indexes (index : Dict String (List CheckId)) (dungeon : String) (id : CheckId) : Prop :=
  ∃ ids, index.find? dungeon = some ids ∧ id ∈ ids

variable {index : Dict String (List CheckId)} {tag dungeon : String} {id : CheckId}

/-- A location adds its check to its dungeon, and nothing else. -/
theorem indexes_indexCheck {gate : Gate} :
    Indexes (indexCheck tag index gate) dungeon id ↔
      Indexes index dungeon id ∨ tag = dungeon ∧ gate.target = id := by
  rw [Indexes, indexCheck, Dict.find?_insert]
  by_cases hdungeon : dungeon = tag
  · subst hdungeon
    cases hfind : index.find? dungeon with
    | none => simp [Indexes, hfind, mem_insertCheck, eq_comm]
    | some ids => simp [Indexes, hfind, mem_insertCheck, eq_comm, or_comm]
  · have hcompare : compare dungeon tag ≠ .eq := mt Std.LawfulEqCmp.eq_of_compare hdungeon
    rw [if_neg hcompare, Indexes, or_iff_left]
    exact fun hsame => hdungeon hsame.1.symm

theorem indexes_foldl_indexCheck {gates : List Gate} :
    Indexes (gates.foldl (indexCheck tag) index) dungeon id ↔
      Indexes index dungeon id ∨ tag = dungeon ∧ ∃ gate ∈ gates, gate.target = id := by
  induction gates generalizing index with
  | nil => simp
  | cons gate gates ih =>
      rw [List.foldl_cons, ih, indexes_indexCheck, or_assoc, ← and_or_left,
        List.exists_mem_cons_iff]

/-- An area adds the checks that it lists to its dungeon. -/
theorem indexes_indexChecks {area : Area} :
    Indexes (indexChecks index area) dungeon id ↔
      Indexes index dungeon id ∨ area.tag? id = some dungeon := by
  rw [Area.tag?_eq_some_iff, Area.lists_iff, indexChecks]
  split
  case h_1 tag htag => rw [indexes_foldl_indexCheck, htag, Option.some.injEq]
  case h_2 htag => simp [htag]

/-- The areas add a check to the dungeons of all of its tags. -/
theorem indexes_foldl_indexChecks {areas : List Area} :
    Indexes (areas.foldl indexChecks index) dungeon id ↔
      Indexes index dungeon id ∨ dungeon ∈ areas.filterMap fun area => area.tag? id := by
  induction areas generalizing index with
  | nil => simp
  | cons area areas ih =>
      rw [List.foldl_cons, ih, indexes_indexChecks, or_assoc, List.mem_filterMap,
        List.mem_filterMap, List.exists_mem_cons_iff]

/-! ### The index has sets -/

/-- The checks of every dungeon strictly ascend, so that none is there twice. -/
def Ascending (index : Dict String (List CheckId)) : Prop :=
  ∀ dungeon ids, index.find? dungeon = some ids → ids.Pairwise (· < ·)

theorem pairwise_insertCheck {ids : List CheckId} (hsorted : ids.Pairwise (· < ·)) :
    (insertCheck id ids).Pairwise (· < ·) := by
  induction ids with
  | nil => exact List.pairwise_singleton _ _
  | cons first ids ih =>
      rcases List.pairwise_cons.mp hsorted with ⟨hfirst, hrest⟩
      rw [insertCheck]
      split
      case isTrue hlt =>
        refine List.pairwise_cons.mpr ⟨fun other hother => ?_, hsorted⟩
        rcases List.mem_cons.mp hother with rfl | hother
        · exact hlt
        · exact Nat.lt_trans hlt (hfirst other hother)
      case isFalse hnot =>
        split
        case isTrue => exact hsorted
        case isFalse hne =>
          refine List.pairwise_cons.mpr ⟨fun other hother => ?_, ih hrest⟩
          rcases mem_insertCheck.mp hother with rfl | hother
          · exact Nat.lt_of_le_of_ne (Nat.le_of_not_lt hnot) (Ne.symm hne)
          · exact hfirst other hother

theorem Ascending.indexCheck (hascending : Ascending index) (gate : Gate) :
    Ascending (indexCheck tag index gate) := by
  intro dungeon ids hids
  rw [Draft.indexCheck, Dict.find?_insert] at hids
  split at hids
  case isTrue =>
    cases hids
    apply pairwise_insertCheck
    cases hfind : index.find? tag with
    | none => exact .nil
    | some old => exact hascending tag old hfind
  case isFalse => exact hascending dungeon ids hids

theorem Ascending.indexChecks (hascending : Ascending index) (area : Area) :
    Ascending (indexChecks index area) := by
  unfold Draft.indexChecks
  split
  case h_1 tag _ =>
    exact List.foldlRecOn area.locations _ hascending fun _ hindex gate _ => hindex.indexCheck gate
  case h_2 => exact hascending

theorem Ascending.foldl_indexChecks (hascending : Ascending index) (areas : List Area) :
    Ascending (areas.foldl Draft.indexChecks index) :=
  List.foldlRecOn areas _ hascending fun _ hindex area _ => hindex.indexChecks area

/-! ### Linking -/

/-- What linking makes of the tags of the areas. -/
theorem dungeons_of_link {draft : Draft} {options : Options} {world : World}
    (hlink : draft.link options = .ok world) :
    world.checks = world.areas.foldl tagChecks draft.checks ∧
      world.dungeons = world.areas.foldl indexChecks .empty := by
  rcases link_eq_ok_iff.mp hlink with ⟨areas, starts, -, -, -, rfl⟩
  exact ⟨rfl, rfl⟩

end Draft

/-! ## Built worlds -/

namespace World

section Building

variable {tables : List GameTable} {options : Options} {constraint : String → Constraint}
  {world : World} (hbuild : (build tables options constraint).result = .ok world) {id : CheckId}
include hbuild

/-- A check of a built world names the last of its tags. -/
theorem dungeon?_of_build {check : Check} (hcheck : world.checks[id]? = some check) :
    check.dungeon? = (world.tags id).getLast? := by
  rcases build_eq_ok_iff.mp hbuild with ⟨draft, hload, hlink⟩
  rw [(Draft.dungeons_of_link hlink).1, Draft.getElem?_foldl_tagChecks,
    Option.map_eq_some_iff] at hcheck
  rcases hcheck with ⟨plain, hplain, rfl⟩
  have huntagged := Draft.untagged_of_loadAll hload plain (List.mem_of_getElem? hplain)
  rw [Check.tagged, huntagged, Option.or_none, tags]

/-- The index of a built world lists a check under each of its tags. -/
theorem mem_dungeons_iff_of_build {dungeon : String} :
    (∃ ids, world.dungeons.find? dungeon = some ids ∧ id ∈ ids) ↔ dungeon ∈ world.tags id := by
  rcases build_eq_ok_iff.mp hbuild with ⟨draft, -, hlink⟩
  have hnone : ¬Draft.Indexes .empty dungeon id := nofun
  rw [(Draft.dungeons_of_link hlink).2]
  exact Draft.indexes_foldl_indexChecks.trans (or_iff_right hnone)

/-- The index of a built world lists no check twice under a dungeon. -/
theorem pairwise_dungeons_of_build {dungeon : String} {ids : List CheckId}
    (hids : world.dungeons.find? dungeon = some ids) : ids.Pairwise (· < ·) := by
  rcases build_eq_ok_iff.mp hbuild with ⟨draft, -, hlink⟩
  have hempty : Draft.Ascending .empty := nofun
  rw [(Draft.dungeons_of_link hlink).2] at hids
  exact hempty.foldl_indexChecks world.areas dungeon ids hids

end Building

/-- The index of a built world lists a check under the dungeons of all areas that list it;
the check names the dungeon of the last of these areas, under which the index has it, too;
and the two agree on a check exactly when all of its tags are the same. -/
theorem dungeons_of_build {tables : List GameTable} {options : Options}
    {constraint : String → Constraint} {world : World}
    (hbuild : (build tables options constraint).result = .ok world) :
    (∀ dungeon id, (∃ ids, world.dungeons.find? dungeon = some ids ∧ id ∈ ids) ↔
      ∃ area ∈ world.areas, area.dungeon? = some dungeon ∧
        ∃ gate ∈ area.locations, gate.target = id) ∧
    ∀ id check, world.checks[id]? = some check →
      check.dungeon? = (world.tags id).getLast? ∧
      (∀ dungeon, check.dungeon? = some dungeon →
        ∃ ids, world.dungeons.find? dungeon = some ids ∧ id ∈ ids) ∧
      ((∀ dungeon, (∃ ids, world.dungeons.find? dungeon = some ids ∧ id ∈ ids) ↔
          check.dungeon? = some dungeon) ↔
        ∀ first ∈ world.tags id, ∀ second ∈ world.tags id, first = second) := by
  refine ⟨fun dungeon id => (mem_dungeons_iff_of_build hbuild).trans mem_tags_iff,
    fun id check hcheck => ?_⟩
  simp only [mem_dungeons_iff_of_build hbuild, dungeon?_of_build hbuild hcheck]
  refine ⟨trivial, fun dungeon => List.mem_of_getLast?, fun hagree first hfirst second hsecond => ?_,
    fun hsame dungeon => ⟨fun hmem => ?_, List.mem_of_getLast?⟩⟩
  · have hlast := ((hagree first).mp hfirst).symm.trans ((hagree second).mp hsecond)
    exact Option.some.inj hlast
  · have hne := List.ne_nil_of_mem hmem
    rw [List.getLast?_eq_some_getLast hne, hsame _ (List.getLast_mem hne) dungeon hmem]

/-- A chest that two dungeons share, and one of the second alone. -/
def cryptTable : GameTable :=
  { GameTable.bare .oot with
    start := ["Forest"]
    areas := .ofList [
      ("Forest",
        { RawArea.bare with dungeon? := some "Forest", locations := .ofList [("Chest", "true")] }),
      ("Well",
        { RawArea.bare with
          dungeon? := some "Well"
          locations := .ofList [("Chest", "true"), ("Coffin", "true")] })]
    pool := [⟨"Chest", .numeric .chest, "FIELD", .number 0, "SWORD"⟩,
      ⟨"Coffin", .numeric .chest, "FIELD", .number 1, "SWORD"⟩] }

/-- In the world of the table the forest has the shared chest, which names the well. -/
theorem exists_build_crypt :
    ∃ world check, (build [cryptTable] .empty fun _ => .anywhere).result = .ok world ∧
      world.dungeons.find? "OOT Forest" = some [0] ∧ world.checks[0]? = some check ∧
      check.dungeon? = some "OOT Well" := by
  have hview : (build [cryptTable] .empty fun _ => .anywhere).result.toOption.map
      (fun world => (world.dungeons.find? "OOT Forest", world.checks[0]?.map Check.dungeon?)) =
        some (some [0], some (some "OOT Well")) := by
    decide +kernel
  rcases Outcome.exists_ok_of_toOption hview with ⟨world, hbuild, hseen⟩
  obtain ⟨hforest, hname⟩ := Prod.mk.inj hseen
  rcases Option.map_eq_some_iff.mp hname with ⟨check, hcheck, hwell⟩
  exact ⟨world, check, hbuild, hforest, hcheck, hwell⟩

/-- The shared chest is listed under the forest, which it does not name. -/
theorem dungeons_differ_chest :
    ∃ world check, (build [cryptTable] .empty fun _ => .anywhere).result = .ok world ∧
      world.checks[0]? = some check ∧
      ¬((∃ ids, world.dungeons.find? "OOT Forest" = some ids ∧ 0 ∈ ids) ↔
        check.dungeon? = some "OOT Forest") := by
  rcases exists_build_crypt with ⟨world, check, hbuild, hforest, hcheck, hwell⟩
  refine ⟨world, check, hbuild, hcheck, fun hagree => ?_⟩
  have hname := hagree.mp ⟨_, hforest, List.mem_cons_self⟩
  exact absurd (Option.some.inj (hwell.symm.trans hname)) (by decide)

/-- The chest is listed because an area of the forest does so, and it names the last of its
tags. -/
theorem dungeons_of_build_crypt :
    ∃ world, (build [cryptTable] .empty fun _ => .anywhere).result = .ok world ∧
      (∃ area ∈ world.areas, area.dungeon? = some "OOT Forest" ∧
        ∃ gate ∈ area.locations, gate.target = 0) ∧
      (world.tags 0).getLast? = some "OOT Well" := by
  rcases exists_build_crypt with ⟨world, check, hbuild, hforest, hcheck, hwell⟩
  rcases dungeons_of_build hbuild with ⟨hindex, hchecks⟩
  exact ⟨world, hbuild, (hindex _ 0).mp ⟨_, hforest, List.mem_cons_self⟩,
    (hchecks 0 check hcheck).1.symm.trans hwell⟩

end World

end SeedLogic
