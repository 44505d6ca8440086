import Mathlib.Logic.Relation
import Mathlib.Data.Fintype.Card
import SeedLogic.Proofs.Analysis.Locks

/-!
# Locks in a circle

Locks move locations from one path to another, and so lose none, unless they go in a
circle: when whoever has a location on the path is locked by somebody else who has it, the
location is on no path any more (`run_loses_deadlocked`).  That takes targets that lock
each other, as do two bosses who are fought in one area.
-/

namespace SeedLogic

open Relation (TransGen)

/-! ## What is left by the lock rule -/

namespace RawPath

variable {paths : List RawPath}

/-- Locks only take away. -/
theorem exists_of_mem_resolve {path : AnalysisPath} (hpath : path ∈ resolve paths) :
    ∃ raw ∈ paths, ∀ location, path.locations.has location = true →
      raw.locations.has location = true := by
  rcases List.mem_map.mp (List.mem_of_mem_filter hpath) with ⟨entry, hentry, rfl⟩
  exact ⟨entry.1, List.fst_mem_of_mem_zipIdx hentry,
    fun location hlocation => (LocationSet.has_keep.mp hlocation).1⟩

/-- Where paths are called differently, a location is left if a path has it that is not
locked by another one that has it. -/
theorem exists_mem_settle_iff (hkinds : (paths.map kind).Nodup) {location : Location} :
    (∃ path ∈ settle paths, path.locations.has location = true) ↔
      ∃ raw ∈ paths, raw.locations.has location = true ∧
        ∀ other ∈ paths, other.kind ≠ raw.kind → other.locks raw = true →
          other.locations.has location = false := by
  have hindex : ∀ {raw other : RawPath} {index place : Nat}, (raw, index) ∈ paths.zipIdx →
      (other, place) ∈ paths.zipIdx → (place = index ↔ other.kind = raw.kind) := by
    intro raw other index place hraw hother
    rw [List.mk_mem_zipIdx_iff_getElem?] at hraw hother
    have hplace : (paths.map kind)[place]? = some other.kind := by
      rw [List.getElem?_map, hother, Option.map_some]
    have hspot : (paths.map kind)[index]? = some raw.kind := by
      rw [List.getElem?_map, hraw, Option.map_some]
    constructor
    · rintro rfl
      exact Option.some.inj (hplace.symm.trans hspot)
    · intro hkind
      rw [← hkind] at hspot
      have hlt := (List.getElem?_eq_some_iff.mp hplace).1
      exact (List.getElem?_inj hlt hkinds).mp (hplace.trans hspot.symm)
  -- A path that still has the location is not dropped.
  have hkept : (∃ path ∈ settle paths, path.locations.has location = true) ↔
      ∃ entry ∈ paths.zipIdx, (settled paths entry).locations.has location = true := by
    simp only [settle, List.mem_filter, List.mem_map]
    constructor
    · rintro ⟨path, ⟨⟨entry, hentry, rfl⟩, -⟩, hlocation⟩
      exact ⟨entry, hentry, hlocation⟩
    · rintro ⟨entry, hentry, hlocation⟩
      refine ⟨_, ⟨⟨entry, hentry, rfl⟩, ?_⟩, hlocation⟩
      rw [Bool.not_eq_true']
      apply Bool.eq_false_iff.mpr
      intro hempty
      rw [LocationSet.has_of_isEmpty hempty] at hlocation
      cases hlocation
  rw [hkept]
  constructor
  · rintro ⟨⟨raw, index⟩, hraw, hlocation⟩
    rcases LocationSet.has_keep.mp hlocation with ⟨hhas, hfree⟩
    refine ⟨raw, List.fst_mem_of_mem_zipIdx hraw, hhas, fun other hother hkind hlocks => ?_⟩
    rcases List.mem_iff_getElem?.mp hother with ⟨place, hplace⟩
    have hentry := List.mk_mem_zipIdx_iff_getElem?.mpr hplace
    have hapart : (place != index) = true := bne_iff_ne.mpr (mt (hindex hraw hentry).mp hkind)
    rw [Bool.not_eq_true', List.any_eq_false] at hfree
    have hother := hfree (other, place) hentry
    rw [hapart, hlocks, Bool.true_and, Bool.true_and] at hother
    exact Bool.eq_false_iff.mpr hother
  · rintro ⟨raw, hraw, hhas, hfree⟩
    rcases List.mem_iff_getElem?.mp hraw with ⟨index, hindex'⟩
    have hentry := List.mk_mem_zipIdx_iff_getElem?.mpr hindex'
    refine ⟨(raw, index), hentry, LocationSet.has_keep.mpr ⟨hhas, ?_⟩⟩
    rw [Bool.not_eq_true', List.any_eq_false]
    rintro ⟨other, place⟩ hother htaken
    simp only [Bool.and_eq_true, bne_iff_ne] at htaken
    rcases htaken with ⟨⟨hplace, hlocks⟩, hlocation⟩
    have hkind := mt (hindex hentry hother).mpr hplace
    rw [hfree other (List.fst_mem_of_mem_zipIdx hother) hkind hlocks] at hlocation
    cases hlocation

end RawPath

namespace Analysis

/-! ## Targets that lock each other -/

section Targets

variable (pathfinder : Pathfinder) (placement : Placement) (settings : Settings)
  (required : LocationSet)

/-- A location lies on the path to a target of the settings. -/
def LiesOn (location : Location) (target : Target) : Prop :=
  target ∈ targets pathfinder.players.length settings ∧
    ∃ path, IsPathTo pathfinder placement required target path ∧
      path.locations.has location = true

/-- A target of the settings locks another one: both have a path, and the other target is
missed where the first is taken away. -/
def TargetLocks (locker locked : Target) : Prop :=
  locker ∈ targets pathfinder.players.length settings ∧
    locked ∈ targets pathfinder.players.length settings ∧ locker ≠ locked ∧
    ∃ lockerPath path, IsPathTo pathfinder placement required locker lockerPath ∧
      IsPathTo pathfinder placement required locked path ∧ lockerPath.locks path = true

/-- A location lies on the path to some target, and wherever it does, it does so too on
the path to another target that locks that one. -/
def Deadlocked (location : Location) : Prop :=
  (∃ target, LiesOn pathfinder placement settings required location target) ∧
    ∀ target, LiesOn pathfinder placement settings required location target →
      ∃ locker, LiesOn pathfinder placement settings required location locker ∧
        TargetLocks pathfinder placement settings required locker target

variable {pathfinder placement settings required}

/-- Where no locks go in a circle, some holder of a location is not locked by another. -/
theorem not_deadlocked_of_acyclic
    (hacyclic : ∀ target,
      ¬TransGen (TargetLocks pathfinder placement settings required) target target)
    (location : Location) : ¬Deadlocked pathfinder placement settings required location := by
  rintro ⟨⟨first, hfirst⟩, hlocked⟩
  let holders := {target // target ∈ targets pathfinder.players.length settings}
  let chain (locker locked : holders) : Prop :=
    TransGen (TargetLocks pathfinder placement settings required) locker.1 locked.1
  have htrans : IsTrans holders chain := ⟨fun _ _ _ => TransGen.trans⟩
  have hirrefl : Std.Irrefl chain := ⟨fun target => hacyclic target.1⟩
  have hfinite : Finite holders :=
    (List.finite_toSet (targets pathfinder.players.length settings)).to_subtype
  -- Going from a holder to one that locks it comes to an end.
  obtain ⟨last, hlast, hfree⟩ := (Finite.wellFounded_of_trans_of_irrefl chain).has_min
    {target | LiesOn pathfinder placement settings required location target.1}
    ⟨⟨first, hfirst.1⟩, hfirst⟩
  rcases hlocked last.1 hlast with ⟨locker, hlocker, hlocks⟩
  exact hfree ⟨locker, hlocker.1⟩ hlocker (.single hlocks)

end Targets

/-- Targets are called differently. -/
theorem target_eq_of_kind_eq {settings : Settings} (hnames : NamesApart settings) {count : Nat}
    {target other : Target} (htarget : target ∈ targets count settings)
    (hother : other ∈ targets count settings) (hkind : target.kind = other.kind) :
    target = other := by
  have hkinds := (List.nodup_cons.mp (nodup_kinds_targets hnames count)).2
  exact List.inj_on_of_nodup_map hkinds htarget hother hkind

/-! ## The whole -/

section RawPaths

variable {pathfinder : Pathfinder} {placement : Placement} {settings : Settings}
  {played : SearchState} {required : LocationSet}
  (hrequired : required = .ofList ((missed pathfinder placement played).map Prod.fst))
include hrequired

/-- The raw paths are the one to the goal and those to the targets. -/
theorem mem_rawPaths_iff {raw : RawPath} :
    raw ∈ rawPaths pathfinder placement settings played ↔
      raw = ⟨.woth, none, SearchState.goal, required⟩ ∨
        ∃ target ∈ targets pathfinder.players.length settings,
          IsPathTo pathfinder placement required target raw := by
  rw [rawPaths, List.mem_cons, List.mem_filterMap, ← hrequired]
  simp only [path?_eq_some_iff, ← hrequired]

theorem isPathTo_unique {target : Target} {path other : RawPath}
    (hpath : IsPathTo pathfinder placement required target path)
    (hother : IsPathTo pathfinder placement required target other) : path = other := by
  rw [hrequired, ← path?_eq_some_iff] at hpath hother
  exact Option.some.inj (hpath.symm.trans hother)

/-- Raw paths have required locations only. -/
theorem required_of_mem_rawPaths {raw : RawPath}
    (hraw : raw ∈ rawPaths pathfinder placement settings played) {location : Location}
    (hlocation : raw.locations.has location = true) : required.has location = true := by
  rcases (mem_rawPaths_iff hrequired).mp hraw with rfl | ⟨target, -, hpath⟩
  · exact hlocation
  · rcases hpath with ⟨_, _, _, _, -, -, -, -, -, -, -, -, hlocations⟩
    exact ((hlocations location).mp hlocation).1

/-- By the lock rule, the required locations are left but for those that are deadlocked. -/
theorem exists_mem_settle_rawPaths_iff (hnames : NamesApart settings) {location : Location} :
    (∃ path ∈ RawPath.settle (rawPaths pathfinder placement settings played),
      path.locations.has location = true) ↔
      required.has location = true ∧
        ¬Deadlocked pathfinder placement settings required location := by
  rw [RawPath.exists_mem_settle_iff (nodup_kinds_rawPaths hnames)]
  have hmem := @mem_rawPaths_iff pathfinder placement settings played required hrequired
  constructor
  · rintro ⟨raw, hraw, hhas, hfree⟩
    refine ⟨required_of_mem_rawPaths hrequired hraw hhas, ?_⟩
    rintro ⟨⟨first, hfirst, path, hpath, hlies⟩, hlocked⟩
    rcases hmem.mp hraw with rfl | ⟨target, htarget, hraw'⟩
    · -- Every path to a target locks the one to the goal.
      have hother := hfree path (hmem.mpr (.inr ⟨first, hfirst, hpath⟩))
      rcases hpath with ⟨_, _, _, blocked, -, -, -, -, hgoal, hkind, hblocked, -⟩
      have hwoth : path.kind ≠ .woth := by
        rw [hkind, Target.kind]
        cases first.role <;> exact nofun
      rw [hother hwoth (by simp [RawPath.locks, hblocked, hgoal])] at hlies
      cases hlies
    · rcases hlocked target ⟨htarget, raw, hraw', hhas⟩ with
        ⟨locker, ⟨hlocker, held, hheld, hlies⟩, -, -, hapart, _, _, hown, hsame, hlocks⟩
      cases isPathTo_unique hrequired hheld hown
      cases isPathTo_unique hrequired hraw' hsame
      have hkind : held.kind ≠ raw.kind := by
        rcases hheld with ⟨_, _, _, _, -, -, -, -, -, hheld, -⟩
        rcases hraw' with ⟨_, _, _, _, -, -, -, -, -, hraw', -⟩
        rw [hheld, hraw']
        exact mt (target_eq_of_kind_eq hnames hlocker htarget) hapart
      rw [hfree held (hmem.mpr (.inr ⟨locker, hlocker, hheld⟩)) hkind hlocks] at hlies
      cases hlies
  · rintro ⟨hhas, hfree⟩
    by_cases hheld : ∃ target, LiesOn pathfinder placement settings required location target
    · -- Some holder is not locked by another, and keeps the location.
      obtain ⟨target, ⟨htarget, path, hpath, hlies⟩, hunlocked⟩ :
          ∃ target, LiesOn pathfinder placement settings required location target ∧
            ∀ locker, LiesOn pathfinder placement settings required location locker →
              ¬TargetLocks pathfinder placement settings required locker target := by
        by_contra hnone
        push Not at hnone
        exact hfree ⟨hheld, hnone⟩
      refine ⟨path, hmem.mpr (.inr ⟨target, htarget, hpath⟩), hlies, ?_⟩
      intro other hother hkind hlocks
      rcases hmem.mp hother with rfl | ⟨locker, hlocker, hother'⟩
      · cases hlocks
      · rw [Bool.eq_false_iff]
        intro hlocation
        have hapart : locker ≠ target := by
          rintro rfl
          exact hkind (congrArg RawPath.kind (isPathTo_unique hrequired hother' hpath))
        exact hunlocked locker ⟨hlocker, other, hother', hlocation⟩
          ⟨hlocker, htarget, hapart, other, path, hother', hpath, hlocks⟩
    · refine ⟨_, hmem.mpr (.inl rfl), hhas, fun other hother hkind _ => ?_⟩
      rcases hmem.mp hother with rfl | ⟨target, htarget, hother'⟩
      · exact absurd rfl hkind
      · rw [Bool.eq_false_iff]
        exact fun hlocation => hheld ⟨target, htarget, other, hother', hlocation⟩

end RawPaths

variable {pathfinder : Pathfinder} {placement : Placement} {settings : Settings}

/-- The paths of an analysis have required locations only.  When bosses have different
names, they have all of them that are not deadlocked; so they have all of them unless
some locks go in a circle. -/
theorem run_loses_deadlocked {analysis : Analysis}
    (hrun : (run pathfinder placement settings).result = .ok analysis) :
    (∀ path ∈ analysis.paths, ∀ location, path.locations.has location = true →
      analysis.required.has location = true) ∧
    (NamesApart settings →
      (∀ location, (∃ path ∈ analysis.paths, path.locations.has location = true) ↔
        analysis.required.has location = true ∧
          ¬Deadlocked pathfinder placement settings analysis.required location) ∧
      ((∀ target, ¬TransGen
          (TargetLocks pathfinder placement settings analysis.required) target target) →
        ∀ location, analysis.required.has location = true ↔
          ∃ path ∈ analysis.paths, path.locations.has location = true)) := by
  rcases exists_rawPaths_of_run hrun with ⟨played, hrequired, hpaths⟩
  constructor
  · intro path hpath location hlocation
    rw [hpaths] at hpath
    rcases RawPath.exists_of_mem_resolve hpath with ⟨raw, hraw, hlocations⟩
    exact required_of_mem_rawPaths hrequired hraw (hlocations location hlocation)
  · intro hnames
    have hleft : ∀ location, (∃ path ∈ analysis.paths, path.locations.has location = true) ↔
        analysis.required.has location = true ∧
          ¬Deadlocked pathfinder placement settings analysis.required location := by
      intro location
      rw [hpaths, resolve_rawPaths_eq_settle hnames]
      exact exists_mem_settle_rawPaths_iff hrequired hnames
    refine ⟨hleft, fun hacyclic location => ?_⟩
    rw [hleft, and_iff_left (not_deadlocked_of_acyclic hacyclic location)]

/-! ### A lair

What lives in the lair has a head and a tail, and both are bosses.  Without the chest at
the start, nobody gets in. -/

/-- The table of the lair. -/
def lairTable : GameTable :=
  { GameTable.bare .oot with
    start := ["Start"]
    areas := .ofList [
      ("Start",
        { RawArea.bare with
          locations := .ofList [("Free Chest", "true")]
          exits := .ofList [("Lair", "has(SWORD)")] }),
      ("Lair", { RawArea.bare with events := .ofList [("HEAD", "true"), ("TAIL", "true")] })]
    pool := [⟨"Free Chest", .numeric .chest, "S", .number 0, "SWORD"⟩] }

/-- The world that is built from it. -/
def lair : World where
  areas := [
    ⟨"OOT Lair", .oot, none, [], [], [⟨0, .const true⟩, ⟨1, .const true⟩], []⟩,
    ⟨"OOT Start", .oot, none, [⟨0, .const true⟩], [⟨0, .hasItem 0 1⟩], [], []⟩]
  checks := [⟨"OOT Free Chest", .oot, "OOT_S", "OOT_SWORD", .numeric .chest 0, .anywhere, none⟩]
  gossips := []
  dungeons := .empty
  starts := [1]
  symbols := ⟨⟨["OOT_SWORD"], List.nodup_singleton _⟩, ⟨["OOT_HEAD", "OOT_TAIL"], by decide⟩,
    .empty⟩

/-- A player of the lair who is after the head. -/
def lairSolver : Pathfinder where
  players := [⟨lair, ⟨#[]⟩⟩]
  starting := ⟨[[]], [[]]⟩
  goal := .events [(0, 0)]

/-- Settings that ask for the paths to both ends. -/
def lairSettings : Settings :=
  { Settings.default with
    goalEvents := ["OOT_HEAD"]
    hintPathEndBoss := true
    endBosses := [⟨"Head", "OOT Lair", "OOT_HEAD"⟩, ⟨"Tail", "OOT Lair", "OOT_TAIL"⟩] }

/-- What is known about the lair: the chest is required, and on no path. -/
def lairAnalysis : Analysis where
  spheres := [[⟨0, 0⟩]]
  required := .ofList [⟨0, 0⟩]
  unreachable := .empty
  paths := []

/-- Head and tail lock each other, and so the path to the goal and both others lose the
chest. -/
theorem run_lair_loses_chest :
    lair.Built ∧
      (run lairSolver (.vanilla [lair]) lairSettings).result = .ok lairAnalysis ∧
      ¬∀ location, lairAnalysis.required.has location = true →
        ∃ path ∈ lairAnalysis.paths, path.locations.has location = true := by
  refine ⟨⟨[lairTable], .empty, fun _ => .anywhere, rfl⟩, rfl, fun hkept => ?_⟩
  rcases hkept ⟨0, 0⟩ rfl with ⟨path, hpath, -⟩
  cases hpath

/-- In the lair the chest is deadlocked; of the two rooms, all that is required is left. -/
theorem run_lair_deadlocked :
    (run lairSolver (.vanilla [lair]) lairSettings).result = .ok lairAnalysis ∧
      Deadlocked lairSolver (.vanilla [lair]) lairSettings lairAnalysis.required ⟨0, 0⟩ ∧
      (run twinsSolver (.vanilla [twins]) (twinsSettings "Last" "First")).result =
        .ok (twinsAnalysis
          [⟨.endBoss "Last" 0, .ofList [⟨0, 1⟩]⟩, ⟨.endBoss "First" 0, .ofList [⟨0, 0⟩]⟩]) ∧
      ∀ location ∈ [(⟨0, 0⟩ : Location), ⟨0, 1⟩],
        ¬Deadlocked twinsSolver (.vanilla [twins]) (twinsSettings "Last" "First")
          (.ofList [⟨0, 0⟩, ⟨0, 1⟩]) location := by
  have hlair : NamesApart lairSettings := ⟨nofun, fun _ => by decide⟩
  have htwins : NamesApart (twinsSettings "Last" "First") := ⟨nofun, fun _ => by decide⟩
  have hlost : (run lairSolver (.vanilla [lair]) lairSettings).result = .ok lairAnalysis := rfl
  have hkept : (run twinsSolver (.vanilla [twins]) (twinsSettings "Last" "First")).result =
      .ok (twinsAnalysis
        [⟨.endBoss "Last" 0, .ofList [⟨0, 1⟩]⟩, ⟨.endBoss "First" 0, .ofList [⟨0, 0⟩]⟩]) := rfl
  refine ⟨hlost, ?_, hkept, fun location hlocation => ?_⟩
  · by_contra hfree
    rcases (((run_loses_deadlocked hlost).2 hlair).1 ⟨0, 0⟩).mpr ⟨rfl, hfree⟩ with
      ⟨path, hpath, -⟩
    cases hpath
  · refine ((((run_loses_deadlocked hkept).2 htwins).1 location).mp ?_).2
    simp only [List.mem_cons, List.not_mem_nil, or_false] at hlocation
    rcases hlocation with rfl | rfl
    · exact ⟨_, List.mem_cons_of_mem _ List.mem_cons_self, rfl⟩
    · exact ⟨_, List.mem_cons_self, rfl⟩

end Analysis

end SeedLogic
