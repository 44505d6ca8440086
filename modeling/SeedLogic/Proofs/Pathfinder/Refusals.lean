import SeedLogic.Proofs.Pathfinder.Safety

/-!
# Refused searches

A search fails when its options or its start speak of something that does not exist, or
leave a player nowhere to start, and in no other case (`exists_error_iff`).  For worlds that
have been built this is all that can go wrong: they are coherent, and a search over them
stays in range (`run_safe`).
-/

namespace SeedLogic

namespace Pathfinder

/-- No world has the number, or its table of this size does not have the place. -/
def Lacks (pathfinder : Pathfinder) (id : WorldId) (size : World → Nat) (place : Nat) : Prop :=
  ∀ world, pathfinder.world? id = some world → size world ≤ place

/-- What a search is refused for: a placement or a forbidden location that does not exist,
overriding starting items for more players than there are or that do not exist, and start
areas that are unknown or none at all. -/
inductive Refuses (pathfinder : Pathfinder) (start? : Option (List String))
    (options : SearchOptions) : Prop where
  | location {placement : Placement} {entry : Location × PlayerItem} :
      options.items? = some placement → entry ∈ placement.items.entries →
      pathfinder.Lacks entry.1.world (fun world => world.checks.length) entry.1.check →
      Refuses pathfinder start? options
  | item {placement : Placement} {entry : Location × PlayerItem} :
      options.items? = some placement → entry ∈ placement.items.entries →
      pathfinder.Lacks entry.2.player World.itemCount entry.2.item →
      Refuses pathfinder start? options
  | forbidden {location : Location} : location ∈ options.forbidden →
      pathfinder.Lacks location.world (fun world => world.checks.length) location.check →
      Refuses pathfinder start? options
  | startingPlayers {starting : StartingItems} : options.starting? = some starting →
      pathfinder.worlds.length < starting.players → Refuses pathfinder start? options
  | startingItem {starting : StartingItems} {id : WorldId} {item : ItemId × Nat} :
      options.starting? = some starting → item ∈ starting.itemsOf id →
      pathfinder.Lacks id World.itemCount item.1 → Refuses pathfinder start? options
  | startingEvent {starting : StartingItems} {id : WorldId} {event : EventId} :
      options.starting? = some starting → event ∈ starting.eventsOf id →
      pathfinder.Lacks id World.eventCount event → Refuses pathfinder start? options
  | startName {names : List String} {name : String} {world : World} :
      start? = some names → name ∈ names → world ∈ pathfinder.worlds →
      (∀ area ∈ world.areas, area.name ≠ name) → Refuses pathfinder start? options
  | noNames : start? = some [] → pathfinder.worlds ≠ [] → Refuses pathfinder start? options
  | noStarts {world : World} : start? = none → world ∈ pathfinder.worlds → world.starts = [] →
      Refuses pathfinder start? options

variable {pathfinder : Pathfinder} {start? : Option (List String)} {options : SearchOptions}

theorem not_lacks_iff {id : WorldId} {size : World → Nat} {place : Nat} :
    ¬pathfinder.Lacks id size place ↔
      ∃ world, pathfinder.world? id = some world ∧ place < size world := by
  simp [Lacks]

theorem hasLocation_iff_not_lacks {location : Location} :
    pathfinder.hasLocation location = true ↔
      ¬pathfinder.Lacks location.world (fun world => world.checks.length) location.check := by
  rw [not_lacks_iff, hasLocation]
  cases pathfinder.world? location.world <;> simp

theorem hasItem_iff_not_lacks {placed : PlayerItem} :
    pathfinder.hasItem placed = true ↔
      ¬pathfinder.Lacks placed.player World.itemCount placed.item := by
  rw [not_lacks_iff, hasItem]
  cases pathfinder.world? placed.player <;> simp

/-- What is meant for each player exists in the world of the player when there are not too
many players and no world lacks any of it. -/
theorem forall_gifts_iff {γ : Type} {gifts : List (List γ)} {size : World → Nat}
    {number : γ → Nat} :
    (∀ id list, gifts[id]? = some list → ∃ world, pathfinder.world? id = some world ∧
      ∀ entry ∈ list, number entry < size world) ↔
    gifts.length ≤ pathfinder.worlds.length ∧
      ∀ (id : WorldId), ∀ entry ∈ gifts[id]?.getD [],
        ¬pathfinder.Lacks id size (number entry) := by
  constructor
  · intro hall
    constructor
    · by_contra hsurplus
      have hfirst := List.getElem?_eq_getElem (Nat.lt_of_not_le hsurplus)
      rcases hall _ _ hfirst with ⟨world, hworld, -⟩
      rw [← getElem?_worlds, List.getElem?_eq_none (Nat.le_refl _)] at hworld
      cases hworld
    · intro id entry hentry
      cases hgift : gifts[id]? with
      | none => simp [hgift] at hentry
      | some list =>
          rw [hgift] at hentry
          rcases hall id list hgift with ⟨world, hworld, hlt⟩
          exact not_lacks_iff.mpr ⟨world, hworld, hlt entry hentry⟩
  · rintro ⟨hlength, hall⟩ id list hgift
    have hlt := Nat.lt_of_lt_of_le (List.getElem?_eq_some_iff.mp hgift).1 hlength
    have hworld := List.getElem?_eq_getElem hlt
    rw [getElem?_worlds] at hworld
    refine ⟨_, hworld, fun entry hentry => ?_⟩
    rcases not_lacks_iff.mp (hall id entry (by rwa [hgift])) with ⟨other, hother, hless⟩
    cases hworld.symm.trans hother
    exact hless

/-- Starting items are valid when there are not too many players and everything exists. -/
theorem validate_starting_iff_not_lacks {starting : StartingItems} :
    starting.validate pathfinder.worlds = .ok () ↔
      starting.players ≤ pathfinder.worlds.length ∧
      (∀ id, ∀ item ∈ starting.itemsOf id, ¬pathfinder.Lacks id World.itemCount item.1) ∧
      ∀ id, ∀ event ∈ starting.eventsOf id, ¬pathfinder.Lacks id World.eventCount event := by
  rw [validate_starting_eq_ok_iff, forall_gifts_iff, forall_gifts_iff, StartingItems.players,
    Nat.max_le]
  constructor
  · rintro ⟨⟨hitems, hitem⟩, hevents, hevent⟩
    exact ⟨⟨hitems, hevents⟩, hitem, hevent⟩
  · rintro ⟨⟨hitems, hevents⟩, hitem, hevent⟩
    exact ⟨⟨hitems, hitem⟩, hevents, hevent⟩

theorem exists_areaId?_iff {world : World} {name : String} :
    (∃ id, world.areaId? name = some id) ↔ ∃ area ∈ world.areas, area.name = name := by
  rw [← Option.isSome_iff_exists, World.areaId?, List.findIdx?_isSome, List.any_eq_true]
  simp only [beq_iff_eq]

/-- A player has a start when the names of areas are known and there is one. -/
theorem exists_start_iff {world : World} :
    ((∀ names, start? = some names → ∀ name ∈ names, ∃ area, world.areaId? name = some area) ∧
      ∃ area, IsStart start? world area) ↔
    (∀ names, start? = some names → ∀ name ∈ names, ∃ area ∈ world.areas, area.name = name) ∧
      start? ≠ some [] ∧ (start? = none → world.starts ≠ []) := by
  simp only [exists_areaId?_iff]
  refine and_congr_right fun hnames => ?_
  cases start? with
  | none =>
      have hstarts : (∃ area, area ∈ world.starts) ↔ world.starts ≠ [] :=
        ⟨fun ⟨_, harea⟩ => List.ne_nil_of_mem harea, List.exists_mem_of_ne_nil _⟩
      simpa [IsStart] using hstarts
  | some names =>
      cases names with
      | nil => simp [IsStart]
      | cons name names =>
          rcases exists_areaId?_iff.mpr (hnames _ rfl name List.mem_cons_self) with ⟨area, harea⟩
          have hstart : IsStart (some (name :: names)) world area :=
            ⟨name, List.mem_cons_self, harea⟩
          simp only [ne_eq, Option.some.injEq, reduceCtorEq, not_false_eq_true, false_implies,
            and_self, iff_true]
          exact ⟨area, hstart⟩

/-- A search fails when its options are not valid or it cannot begin. -/
theorem exists_error_iff_not :
    (∃ fault, pathfinder.run start? options = .error fault) ↔
      ¬(pathfinder.validate options = .ok () ∧
        ∃ state, pathfinder.begin start? (pathfinder.startingOf options) = .ok state) := by
  have hsuccess : (∃ search, pathfinder.run start? options = .ok search) ↔
      pathfinder.validate options = .ok () ∧
        ∃ state, pathfinder.begin start? (pathfinder.startingOf options) = .ok state := by
    simp only [run_eq_ok_iff]
    constructor
    · rintro ⟨-, hvalid, state, count, hruns, -⟩
      exact ⟨hvalid, state, hruns.begins⟩
    · rintro ⟨hvalid, state, hbegin⟩
      rcases exists_runs options hbegin with ⟨count, hruns, -⟩
      exact ⟨_, hvalid, state, count, hruns, rfl⟩
  rw [← hsuccess]
  cases pathfinder.run start? options <;> simp

/-- A search fails when it is refused, and in no other case. -/
theorem exists_error_iff :
    (∃ fault, pathfinder.run start? options = .error fault) ↔
      pathfinder.Refuses start? options := by
  rw [exists_error_iff_not, validate_eq_ok_iff, exists_begin_iff]
  simp only [exists_start_iff, hasLocation_iff_not_lacks, hasItem_iff_not_lacks,
    validate_starting_iff_not_lacks]
  constructor
  · intro hrejected
    by_contra haccepted
    refine hrejected ⟨⟨fun placement hitems entry hentry => ⟨fun hlacks => ?_, fun hlacks => ?_⟩,
      fun location hlocation hlacks => ?_, fun starting hstarting => ⟨?_, fun id item hitem hlacks =>
        ?_, fun id event hevent hlacks => ?_⟩⟩, fun player hplayer => ⟨?_, fun hnone => ?_,
        fun hnone hstarts => ?_⟩⟩
    · exact haccepted (.location hitems hentry hlacks)
    · exact haccepted (.item hitems hentry hlacks)
    · exact haccepted (.forbidden hlocation hlacks)
    · exact Nat.le_of_not_lt fun hsurplus => haccepted (.startingPlayers hstarting hsurplus)
    · exact haccepted (.startingItem hstarting hitem hlacks)
    · exact haccepted (.startingEvent hstarting hevent hlacks)
    · intro names hstart name hname
      by_contra hunknown
      refine haccepted (.startName hstart hname (List.mem_map_of_mem hplayer) ?_)
      exact fun area harea hsame => hunknown ⟨area, harea, hsame⟩
    · exact haccepted (.noNames hnone (List.ne_nil_of_mem (List.mem_map_of_mem hplayer)))
    · exact haccepted (.noStarts hnone (List.mem_map_of_mem hplayer) hstarts)
  · rintro hrefuses ⟨⟨hplacement, hforbidden, hstarting⟩, hplayers⟩
    cases hrefuses with
    | location hitems hentry hlacks => exact (hplacement _ hitems _ hentry).1 hlacks
    | item hitems hentry hlacks => exact (hplacement _ hitems _ hentry).2 hlacks
    | forbidden hlocation hlacks => exact hforbidden _ hlocation hlacks
    | startingPlayers hown hsurplus => exact absurd (hstarting _ hown).1 (Nat.not_le.mpr hsurplus)
    | startingItem hown hitem hlacks => exact (hstarting _ hown).2.1 _ _ hitem hlacks
    | startingEvent hown hevent hlacks => exact (hstarting _ hown).2.2 _ _ hevent hlacks
    | startName hstart hname hworld hunknown =>
        rcases List.mem_map.mp hworld with ⟨player, hplayer, rfl⟩
        rcases (hplayers player hplayer).1 _ hstart _ hname with ⟨area, harea, hsame⟩
        exact hunknown area harea hsame
    | noNames hstart hworlds =>
        rcases List.exists_mem_of_ne_nil _ hworlds with ⟨world, hworld⟩
        rcases List.mem_map.mp hworld with ⟨player, hplayer, rfl⟩
        exact (hplayers player hplayer).2.1 hstart
    | noStarts hstart hworld hstarts =>
        rcases List.mem_map.mp hworld with ⟨player, hplayer, rfl⟩
        exact (hplayers player hplayer).2.2 hstart hstarts

/-! ## Built worlds -/

/-- Solvers of coherent worlds are sound. -/
theorem sound_of_ofWorlds {worlds : List World} {settings : Options} {starting : StartingItems}
    {solver : Pathfinder} (hbuilt : ∀ world ∈ worlds, world.Built)
    (hsolver : ofWorlds worlds settings starting = .ok solver) :
    (∀ player ∈ solver.players, player.Sound) ∧ solver.worlds = worlds ∧
      solver.starting = starting ∧ starting.validate worlds = .ok () := by
  rcases Outcome.check_bind_eq_ok.mp hsolver with ⟨hvalid, hsolver⟩
  cases hsolver
  refine ⟨fun player hplayer => ?_, ?_, rfl, hvalid⟩
  · rcases List.mem_map.mp hplayer with ⟨world, hworld, rfl⟩
    rcases hbuilt world hworld with ⟨tables, options, constraint, hbuild⟩
    have hcoherent := World.coherent_of_build hbuild
    refine ⟨hcoherent.linked, hcoherent.requirements, ?_⟩
    simp [World.resolveSettings, Flags.size, NameTable.size]
  · rw [Pathfinder.worlds, List.map_map]
    exact List.map_id' worlds

/-- A world that has been built is coherent.  A search over such worlds, from whatever start
and with whatever options, makes no access out of range as long as its goal makes none, and
it fails exactly when it is refused. -/
theorem run_safe :
    (∀ tables options constraint world,
      (World.build tables options constraint).result = .ok world →
        world.Coherent tables options) ∧
    ∀ worlds, (∀ world ∈ worlds, world.Built) → ∀ settings starting solver,
      ofWorlds worlds settings starting = .ok solver → ∀ goal goal?,
      (∀ state, (solver.withGoal goal).Fits state.worlds → goal? state = some (goal state)) →
      ∀ start? options,
        (solver.withGoal goal).run? goal? start? options =
          .outcome ((solver.withGoal goal).run start? options) ∧
        ((∃ fault, (solver.withGoal goal).run start? options = .error fault) ↔
          (solver.withGoal goal).Refuses start? options) := by
  refine ⟨fun tables options constraint world => World.coherent_of_build, ?_⟩
  intro worlds hbuilt settings starting solver hsolver goal goal? hgoal start? options
  rcases sound_of_ofWorlds hbuilt hsolver with ⟨hsound, hworlds, hstarts, hvalid⟩
  have hplayers : ∀ player ∈ (solver.withGoal goal).players, player.Sound := hsound
  have hstarting : (solver.withGoal goal).starting.validate (solver.withGoal goal).worlds =
      .ok () := by
    change solver.starting.validate solver.worlds = .ok ()
    rw [hworlds, hstarts]
    exact hvalid
  exact ⟨run?_eq_run hplayers hstarting hgoal start? options, exists_error_iff⟩

/-- In the meadow a search for the opening of the cave succeeds, and one from no areas is
refused. -/
theorem run_safe_meadow :
    World.meadow.Coherent [World.meadowTable] (.ofList [("hard", .flag false)]) ∧
      (meadowSolver.withGoal (Goal.events [(0, 0)])).run? (Goal.events? [(0, 0)]) none
        meadowOptions =
        .outcome ((meadowSolver.withGoal (Goal.events [(0, 0)])).run none meadowOptions) ∧
      ∃ fault, (meadowSolver.withGoal (Goal.events [(0, 0)])).run (some []) meadowOptions =
        .error fault := by
  have hbuilt : ∀ world ∈ [World.meadow], world.Built := by
    simpa using World.built_meadow
  have hsolver : ofWorlds [.meadow] (.ofList [("hard", .flag false)]) meadowSolver.starting =
      .ok meadowSolver := rfl
  have hevents : ∀ entry ∈ [((0, 0) : WorldId × EventId)], ∃ world,
      (meadowSolver.withGoal (Goal.events [(0, 0)])).world? entry.1 = some world ∧
        entry.2 < world.eventCount := by
    simpa using ⟨World.meadow, rfl, by decide⟩
  have hrun := run_safe.2 _ hbuilt _ _ _ hsolver (Goal.events [(0, 0)]) (Goal.events? [(0, 0)])
    fun state hfits => Goal.events?_eq_events hevents hfits
  exact ⟨run_safe.1 _ _ (fun _ => .anywhere) _ rfl, (hrun none meadowOptions).1,
    (hrun (some []) meadowOptions).2.mpr (.noNames rfl (List.cons_ne_nil _ _))⟩

end Pathfinder

end SeedLogic
