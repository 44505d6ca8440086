import SeedLogic.Analysis
import SeedLogic.Proofs.Pathfinder.Lockstep

/-!
# Required locations

An analysis asks only for the locations of its playthrough whether the goal is missed
without them.  Nothing is lost by that: without a location that the playthrough does
not reach, the playthrough is the same (`mem_required_iff`).
-/

namespace SeedLogic

namespace Analysis

variable {pathfinder : Pathfinder} {placement : Placement} {settings : Settings}

/-! ## Stages of an analysis -/

theorem search_eq_ok_iff {options : SearchOptions} {state : SearchState} :
    (search pathfinder options).result = .ok state ↔
      ∃ search, pathfinder.run none options = .ok search ∧ search.state = state := by
  simp only [search, Pathfinder.runLogged, Recorded.result_mapFault, Recorded.result_bind,
    Recorded.result_lift, Recorded.result_note, Recorded.result_pure]
  cases pathfinder.run none options with
  | error fault => simp [bind, Except.bind, Except.mapError]
  | ok search => simp [bind, Except.bind, Except.mapError]

theorem playthrough_eq_ok_iff {state : SearchState} :
    (playthrough pathfinder placement).result = .ok state ↔
      ∃ search, pathfinder.run none (searchOptions placement [] true) = .ok search ∧
        search.state = state ∧ state.goal = true := by
  simp only [playthrough, Recorded.result_bind, Outcome.bind_eq_ok, search_eq_ok_iff]
  constructor
  · rintro ⟨played, ⟨search, hrun, rfl⟩, hgoal⟩
    split at hgoal
    case isTrue hmet =>
      cases hgoal
      exact ⟨search, hrun, rfl, hmet⟩
    case isFalse => cases hgoal
  · rintro ⟨search, hrun, rfl, hmet⟩
    exact ⟨search.state, ⟨search, hrun, rfl⟩, by rw [if_pos hmet, Recorded.result_pure]⟩

theorem findUnreachable_eq_ok_iff {set : LocationSet} :
    (findUnreachable pathfinder placement).result = .ok set ↔
      ∃ search, pathfinder.run none (searchOptions placement [] false) = .ok search ∧
        set = .ofList ((allLocations pathfinder.worlds).filter fun location =>
          !search.state.isReached location) := by
  simp only [findUnreachable, Recorded.result_bind, Outcome.bind_eq_ok, search_eq_ok_iff,
    Recorded.result_pure]
  constructor
  · rintro ⟨state, ⟨search, hrun, rfl⟩, hset⟩
    exact ⟨search, hrun, (Except.ok.inj hset).symm⟩
  · rintro ⟨search, hrun, rfl⟩
    exact ⟨search.state, ⟨search, hrun, rfl⟩, rfl⟩

/-- The locations of a playthrough without which the goal is missed, each with what can
be reached without it. -/
def missed (pathfinder : Pathfinder) (placement : Placement) (played : SearchState) :
    List (Location × SearchState) :=
  played.spheres.flatten.filterMap (missedWithout? pathfinder placement)

/-- The paths of bosses, if they are wanted. -/
def pathsIf (wanted : Bool) (paths : Logged Failure (List RawPath)) :
    Logged Failure (List RawPath) :=
  if wanted then paths else pure []

/-- A successful analysis has gone through all of its stages. -/
theorem exists_stages_of_run {analysis : Analysis}
    (hrun : (run pathfinder placement settings).result = .ok analysis) :
    ∃ played unreachable bosses endBosses,
      (playthrough pathfinder placement).result = .ok played ∧
      (findUnreachable pathfinder placement).result = .ok unreachable ∧
      (pathsIf settings.hintPathBoss (bossPaths pathfinder placement
        (missed pathfinder placement played) .boss settings.bosses)).result = .ok bosses ∧
      (pathsIf settings.hintPathEndBoss (bossPaths pathfinder placement
        (missed pathfinder placement played) .endBoss settings.endBosses)).result =
          .ok endBosses ∧
      analysis =
        ⟨played.spheres, .ofList ((missed pathfinder placement played).map Prod.fst), unreachable,
          RawPath.resolve (⟨.woth, none, SearchState.goal,
            .ofList ((missed pathfinder placement played).map Prod.fst)⟩ ::
              (bosses ++ endBosses))⟩ := by
  have hstages : run pathfinder placement settings = (do
      let played ← playthrough pathfinder placement
      .note (.playthroughFound played.spheres.length)
      let lost := missed pathfinder placement played
      let required : LocationSet := .ofList (lost.map Prod.fst)
      .note (.requiredFound required.size)
      let unreachable ← findUnreachable pathfinder placement
      let bosses ← pathsIf settings.hintPathBoss
        (bossPaths pathfinder placement lost .boss settings.bosses)
      let endBosses ← pathsIf settings.hintPathEndBoss
        (bossPaths pathfinder placement lost .endBoss settings.endBosses)
      let paths := RawPath.resolve
        (⟨.woth, none, SearchState.goal, required⟩ :: (bosses ++ endBosses))
      .note (.pathsFound paths.length)
      pure ⟨played.spheres, required, unreachable, paths⟩) := by
    unfold run pathsIf missed
    cases settings.hintPathBoss <;> cases settings.hintPathEndBoss <;> rfl
  simp only [hstages, Recorded.result_bind, Recorded.result_note, Recorded.result_pure] at hrun
  rcases Outcome.bind_eq_ok.mp hrun with ⟨played, hplayed, hrun⟩
  rcases Outcome.bind_eq_ok.mp hrun with ⟨-, -, hrun⟩
  rcases Outcome.bind_eq_ok.mp hrun with ⟨-, -, hrun⟩
  rcases Outcome.bind_eq_ok.mp hrun with ⟨unreachable, hunreachable, hrun⟩
  rcases Outcome.bind_eq_ok.mp hrun with ⟨bosses, hbosses, hrun⟩
  rcases Outcome.bind_eq_ok.mp hrun with ⟨endBosses, hendBosses, hrun⟩
  rcases Outcome.bind_eq_ok.mp hrun with ⟨-, -, hrun⟩
  cases hrun
  exact ⟨played, unreachable, bosses, endBosses, hplayed, hunreachable, hbosses, hendBosses, rfl⟩

/-! ## Searches without one location -/

theorem mem_allLocations {location : Location} :
    location ∈ allLocations pathfinder.worlds ↔ pathfinder.hasLocation location = true := by
  rw [allLocations, List.mem_flatMap, Pathfinder.hasLocation, ← Pathfinder.getElem?_worlds]
  constructor
  · rintro ⟨⟨world, id⟩, hentry, hlocation⟩
    rcases List.mem_map.mp hlocation with ⟨check, hcheck, rfl⟩
    rw [List.mk_mem_zipIdx_iff_getElem?] at hentry
    rw [hentry]
    exact decide_eq_true (List.mem_range.mp hcheck)
  · intro hlocation
    cases hworld : pathfinder.worlds[location.world]? with
    | none => simp [hworld] at hlocation
    | some world =>
        rw [hworld] at hlocation
        refine ⟨(world, location.world), List.mk_mem_zipIdx_iff_getElem?.mpr hworld, ?_⟩
        exact List.mem_map.mpr
          ⟨location.check, List.mem_range.mpr (of_decide_eq_true hlocation), rfl⟩

theorem missedWithout?_eq_some {location : Location} {loss : Location × SearchState} :
    missedWithout? pathfinder placement location = some loss ↔
      loss.1 = location ∧
        ∃ search, pathfinder.run none (searchOptions placement [location] true) = .ok search ∧
          search.state.goal = false ∧ search.state = loss.2 := by
  unfold missedWithout?
  constructor
  · intro hloss
    split at hloss
    case h_1 search hrun =>
      split at hloss
      case isTrue => cases hloss
      case isFalse hgoal =>
        cases hloss
        exact ⟨rfl, search, hrun, Bool.eq_false_iff.mpr hgoal, rfl⟩
    case h_2 => cases hloss
  · rintro ⟨rfl, search, hrun, hgoal, hstate⟩
    simp only [hrun]
    rw [if_neg (by simp [hgoal]), hstate]

/-- A location is missed if it is found and the goal is missed without it. -/
theorem mem_missed {played : SearchState} {location : Location} :
    location ∈ (missed pathfinder placement played).map Prod.fst ↔
      location ∈ played.spheres.flatten ∧
        ∃ search, pathfinder.run none (searchOptions placement [location] true) = .ok search ∧
          search.state.goal = false := by
  rw [missed, List.mem_map]
  constructor
  · rintro ⟨loss, hloss, rfl⟩
    rcases List.mem_filterMap.mp hloss with ⟨found, hfound, hwithout⟩
    rcases missedWithout?_eq_some.mp hwithout with ⟨rfl, search, hrun, hgoal, -⟩
    exact ⟨hfound, search, hrun, hgoal⟩
  · rintro ⟨hfound, search, hrun, hgoal⟩
    refine ⟨(location, search.state), List.mem_filterMap.mpr ⟨location, hfound, ?_⟩, rfl⟩
    exact missedWithout?_eq_some.mpr ⟨rfl, search, hrun, hgoal, rfl⟩

/-- A location can be forbidden if it exists. -/
theorem validate_forbidding_iff (early : Bool) {location : Location} {late : Bool} :
    pathfinder.validate (searchOptions placement [location] late) = .ok () ↔
      pathfinder.validate (searchOptions placement [] early) = .ok () ∧
        pathfinder.hasLocation location = true := by
  have hforbidden : [location].forM pathfinder.validateForbidden = .ok () ↔
      pathfinder.hasLocation location = true := by
    rw [Outcome.forM_eq_ok, List.forall_mem_singleton, Pathfinder.validateForbidden]
    split
    case isTrue hlocation => simp [hlocation]
    case isFalse hlocation => simp [hlocation]
  have hvalid : ∀ forbidden stop,
      pathfinder.validate (searchOptions placement forbidden stop) = .ok () ↔
        placement.items.entries.forM pathfinder.validateEntry = .ok () ∧
          forbidden.forM pathfinder.validateForbidden = .ok () := by
    intro forbidden stop
    simp only [Pathfinder.validate, searchOptions, SearchOptions.plain, Outcome.bind_eq_ok]
    constructor
    · rintro ⟨⟨⟩, hentries, ⟨⟩, hforbidden, -⟩
      exact ⟨hentries, hforbidden⟩
    · rintro ⟨hentries, hforbidden⟩
      exact ⟨(), hentries, (), hforbidden, trivial⟩
  rw [hvalid, hvalid, hforbidden]
  constructor
  · rintro ⟨hentries, hlocation⟩
    exact ⟨⟨hentries, rfl⟩, hlocation⟩
  · rintro ⟨⟨hentries, -⟩, hlocation⟩
    exact ⟨hentries, hlocation⟩

/-- Without a location that exists, a search succeeds as it does with it. -/
theorem exists_run_without {found : Search} {early : Bool}
    (hrun : pathfinder.run none (searchOptions placement [] early) = .ok found)
    {location : Location} (hlocation : pathfinder.hasLocation location = true) (late : Bool) :
    ∃ search, pathfinder.run none (searchOptions placement [location] late) = .ok search := by
  rcases Pathfinder.run_eq_ok_iff.mp hrun with ⟨hvalid, state, count, hruns, -⟩
  rcases Pathfinder.exists_runs (searchOptions placement [location] late) hruns.begins with
    ⟨count, hruns, -⟩
  exact ⟨_, Pathfinder.run_eq_ok_iff.mpr
    ⟨(validate_forbidding_iff _).mpr ⟨hvalid, hlocation⟩, state, count, hruns, rfl⟩⟩

/-- Without a location that it does not reach, a search is the same. -/
theorem run_without_eq {found : Search} {stop : Bool}
    (hrun : pathfinder.run none (searchOptions placement [] stop) = .ok found)
    {location : Location} (hlocation : pathfinder.hasLocation location = true)
    (hunfound : location ∉ found.state.spheres.flatten) :
    pathfinder.run none (searchOptions placement [location] stop) = .ok found := by
  have hvalid := (Pathfinder.run_eq_ok_iff.mp hrun).1
  apply Pathfinder.run_eq_of_agree hrun ((validate_forbidding_iff _).mpr ⟨hvalid, hlocation⟩) rfl
  constructor
  · rfl
  · rfl
  · exact List.nil_subset _
  · intro other hother hforbidden
    rw [List.mem_singleton.mp hforbidden] at hother
    exact hunfound hother
  · exact fun other _ => rfl

/-- Up to the goal or to its end, a search meets the goal alike. -/
theorem goal_eq_of_run {forbidden : List Location} {stop : Bool} {stopped search : Search}
    (hstopped : pathfinder.run none (searchOptions placement forbidden true) = .ok stopped)
    (hsearch : pathfinder.run none (searchOptions placement forbidden stop) = .ok search) :
    stopped.state.goal = search.state.goal := by
  have hstopping : ∀ stop, (searchOptions placement forbidden false).stopping stop =
      searchOptions placement forbidden stop := fun _ => rfl
  rw [← hstopping] at hstopped hsearch
  rcases Pathfinder.exists_stopped_and_full hstopped with
    ⟨first, second, hfirst, hsecond, -, hgoal, -⟩
  cases hstopped.symm.trans hfirst
  cases stop with
  | false =>
      cases hsearch.symm.trans hsecond
      exact hgoal
  | true =>
      cases hsearch.symm.trans hfirst
      rfl

/-! ## Spheres -/

/-- What is counted once in a joined list is in one of its parts. -/
theorem existsUnique_part {parts : List (List Location)} {location : Location}
    (hcount : parts.flatten.count location = 1) :
    ∃! index : Nat, ∃ part, parts[index]? = some part ∧ location ∈ part := by
  induction parts with
  | nil => simp at hcount
  | cons first parts ih =>
      rw [List.flatten_cons, List.count_append] at hcount
      by_cases hfirst : location ∈ first
      · have hpositive := List.count_pos_iff.mpr hfirst
        have hrest : parts.flatten.count location = 0 := by omega
        refine ⟨0, ⟨first, rfl, hfirst⟩, ?_⟩
        rintro (_ | index) ⟨part, hpart, hmem⟩
        · rfl
        · have hflat : location ∈ parts.flatten :=
            List.mem_flatten.mpr ⟨part, List.mem_of_getElem? hpart, hmem⟩
          exact absurd hflat (List.count_eq_zero.mp hrest)
      · rw [List.count_eq_zero_of_not_mem hfirst, Nat.zero_add] at hcount
        rcases ih hcount with ⟨index, ⟨part, hpart, hmem⟩, hunique⟩
        refine ⟨index + 1, ⟨part, hpart, hmem⟩, ?_⟩
        rintro (_ | other) ⟨part, hpart, hmem⟩
        · cases hpart
          exact absurd hmem hfirst
        · exact congrArg Nat.succ (hunique other ⟨part, hpart, hmem⟩)

/-- A location that a search to the goal finds is reached by the search to the end. -/
theorem isReached_of_mem_spheres {stopped full : Search}
    (hstopped : pathfinder.run none (searchOptions placement [] true) = .ok stopped)
    (hfull : pathfinder.run none (searchOptions placement [] false) = .ok full)
    {location : Location} (hlocation : pathfinder.hasLocation location = true)
    (hmem : location ∈ stopped.state.spheres.flatten) :
    full.state.isReached location = true := by
  have hstopping : searchOptions placement [] true =
      (searchOptions placement [] false).stopping true := rfl
  rw [hstopping] at hstopped
  rcases Pathfinder.exists_stopped_and_full hstopped with
    ⟨first, second, hfirst, hsecond, hle, -, -⟩
  cases hstopped.symm.trans hfirst
  cases hfull.symm.trans hsecond
  exact (Pathfinder.ledger_of_run hfull).isReached_of_mem hlocation
    (hle.spheres.flatten.subset hmem)

/-! ## The whole -/

/-- An analysis that succeeds requires exactly the locations without which the goal is
missed; each of them is in one sphere.  What it calls unreachable is what the search to
the end does not reach, and none of it is in a sphere. -/
theorem run_finds_required {analysis : Analysis}
    (hrun : (run pathfinder placement settings).result = .ok analysis) :
    (∀ location, pathfinder.hasLocation location = true → ∀ stop, ∃ search,
      pathfinder.run none
        { items? := some placement, starting? := none, recursive := true,
          forbidden := [location], stopAtGoal := stop, gossips := false } = .ok search ∧
        (analysis.required.has location = true ↔ search.state.goal = false)) ∧
    (∀ location, analysis.required.has location = true →
      pathfinder.hasLocation location = true ∧
        ∃! index : Nat, ∃ sphere, analysis.spheres[index]? = some sphere ∧ location ∈ sphere) ∧
    ∃ full,
      pathfinder.run none
        { items? := some placement, starting? := none, recursive := true, forbidden := [],
          stopAtGoal := false, gossips := false } = .ok full ∧
      (∀ location, analysis.unreachable.has location = true ↔
        pathfinder.hasLocation location = true ∧ full.state.isReached location = false) ∧
      ∀ sphere ∈ analysis.spheres, ∀ location ∈ sphere,
        analysis.unreachable.has location = false := by
  rcases exists_stages_of_run hrun with
    ⟨played, unreachable, bosses, endBosses, hplayed, hunreachable, -, -, rfl⟩
  rcases playthrough_eq_ok_iff.mp hplayed with ⟨found, hfound, rfl, hmet⟩
  rcases findUnreachable_eq_ok_iff.mp hunreachable with ⟨full, hfull, rfl⟩
  have hunreached : ∀ location,
      (LocationSet.ofList ((allLocations pathfinder.worlds).filter fun location =>
        !full.state.isReached location)).has location = true ↔
          pathfinder.hasLocation location = true ∧ full.state.isReached location = false := by
    intro location
    rw [LocationSet.has_ofList, List.mem_filter, mem_allLocations, Bool.not_eq_true']
  refine ⟨?_, ?_, full, hfull, hunreached, ?_⟩
  · intro location hlocation stop
    rcases exists_run_without hfound hlocation stop with ⟨search, hsearch⟩
    rcases exists_run_without hfound hlocation true with ⟨stopped, hstopped⟩
    refine ⟨search, hsearch, ?_⟩
    rw [LocationSet.has_ofList, mem_missed, ← goal_eq_of_run hstopped hsearch]
    constructor
    · rintro ⟨-, other, hother, hgoal⟩
      cases hstopped.symm.trans hother
      exact hgoal
    · intro hgoal
      refine ⟨?_, stopped, hstopped, hgoal⟩
      -- Otherwise the playthrough would do without the location.
      by_contra hunfound
      cases hstopped.symm.trans (run_without_eq hfound hlocation hunfound)
      rw [hmet] at hgoal
      cases hgoal
  · intro location hrequired
    rcases mem_missed.mp (LocationSet.has_ofList.mp hrequired) with ⟨hmem, search, hsearch, -⟩
    have hvalid := (Pathfinder.run_eq_ok_iff.mp hsearch).1
    have hlocation := ((validate_forbidding_iff true).mp hvalid).2
    have hcount := (Pathfinder.ledger_of_run hfound).count_eq hlocation
    have hpositive := List.count_pos_iff.mpr hmem
    have hbound := Bool.toNat_le (found.state.isReached location)
    have hone : found.state.spheres.flatten.count location = 1 := by omega
    exact ⟨hlocation, existsUnique_part hone⟩
  · intro sphere hsphere location hmem
    rw [Bool.eq_false_iff, Ne, hunreached]
    rintro ⟨hlocation, hfar⟩
    have hflat : location ∈ found.state.spheres.flatten :=
      List.mem_flatten.mpr ⟨sphere, hsphere, hmem⟩
    rw [isReached_of_mem_spheres hfound hfull hlocation hflat] at hfar
    cases hfar

/-- A player of the meadow who is after what lies in the cave. -/
def poolSolver : Pathfinder :=
  Pathfinder.meadowSolver.withGoal fun state => state.isReached ⟨0, 1⟩

/-- Both the chest with the second sword and the pool in the cave are required. -/
def poolAnalysis : Analysis where
  spheres := [[⟨0, 0⟩], [⟨0, 1⟩]]
  required := .ofList [⟨0, 0⟩, ⟨0, 1⟩]
  unreachable := .empty
  paths := [⟨.woth, .ofList [⟨0, 0⟩, ⟨0, 1⟩]⟩]

theorem run_pool_finds_required :
    (run poolSolver (.vanilla [.meadow]) .default).result = .ok poolAnalysis ∧
      ∀ stop, ∃ search,
        poolSolver.run none
          { items? := some (.vanilla [.meadow]), starting? := none, recursive := true,
            forbidden := [⟨0, 0⟩], stopAtGoal := stop, gossips := false } = .ok search ∧
          search.state.goal = false := by
  have hrun : (run poolSolver (.vanilla [.meadow]) .default).result = .ok poolAnalysis := rfl
  refine ⟨hrun, fun stop => ?_⟩
  rcases (run_finds_required hrun).1 ⟨0, 0⟩ rfl stop with ⟨search, hsearch, hrequired⟩
  exact ⟨search, hsearch, hrequired.mp rfl⟩

end Analysis

end SeedLogic
