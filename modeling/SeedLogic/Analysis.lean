import SeedLogic.Failure
import SeedLogic.LocationSet
import SeedLogic.Pathfinder

/-!
# Analysis of a seed

Which locations a seed requires, which cannot be reached, and which paths lead to
its goal and to its bosses.  A location is required if the goal is missed without
it; it lies on the path of a boss if the boss is missed without it.  A path that is
locked by another leaves to it the locations that both have.
-/

namespace SeedLogic

/-- The goal that every world obtains every goal event. -/
def settingsGoal (worlds : List World) (settings : Settings) : Except Failure Goal :=
  if settings.goalEvents.isEmpty then .error .noGoalEvents
  else do
    let pairs := worlds.zipIdx.flatMap fun entry =>
      settings.goalEvents.map fun name => (entry, name)
    let events ← pairs.mapM fun pair =>
      match pair.1.1.eventId? pair.2 with
      | some event => .ok (pair.1.2, event)
      | none => .error (.unknownGoalEvent pair.2 pair.1.2)
    .ok (.events events)

/-! ## Paths -/

/-- What a path leads to: the goal, or a boss of a world. -/
inductive PathKind where
  | woth
  | boss (name : String) (world : WorldId)
  | endBoss (name : String) (world : WorldId)
  deriving DecidableEq, Repr

/-- The key of a path. -/
def PathKind.key : PathKind → String
  | .woth => "woth"
  | .boss name world => "boss." ++ name ++ "." ++ toString world
  | .endBoss name world => "end-boss." ++ name ++ "." ++ toString world

/-- A path and its locations. -/
structure AnalysisPath where
  kind : PathKind
  locations : LocationSet

/-- A path before locks are resolved.  `blocked?` is what can be reached when the
target of the path is taken away, and `reached` says whether the target is. -/
structure RawPath where
  kind : PathKind
  blocked? : Option SearchState
  reached : Goal
  locations : LocationSet

namespace RawPath

/-- The key of a path. -/
def key (path : RawPath) : String :=
  path.kind.key

/-- The keys of the other paths whose target is missed without that of the path at
`index`. -/
def lockedKeys (paths : List RawPath) (path : RawPath) (index : Nat) : List String :=
  match path.blocked? with
  | none => []
  | some blocked =>
      (paths.zipIdx.filter fun other => other.2 != index && !other.1.reached blocked).map
        fun other => other.1.key

/-- The place of the last path with a key. -/
def lastWithKey? (paths : List RawPath) (key : String) : Option Nat :=
  ((paths.zipIdx.filter fun entry => entry.1.key == key).getLast?).map Prod.snd

/-- Is the path at `index` locked by another one that has the location? -/
def losesLocation (paths : List RawPath) (path : RawPath) (index : Nat)
    (location : Location) : Bool :=
  lastWithKey? paths path.key == some index &&
    paths.zipIdx.any fun other =>
      (lockedKeys paths other.1 other.2).contains path.key && other.1.locations.has location

/-- The path with the locations that no lock takes away. -/
def unlocked (paths : List RawPath) (entry : RawPath × Nat) : AnalysisPath :=
  ⟨entry.1.kind,
    entry.1.locations.keep fun location => !losesLocation paths entry.1 entry.2 location⟩

/-- The paths that still have locations when all locks are resolved. -/
def resolve (paths : List RawPath) : List AnalysisPath :=
  (paths.zipIdx.map (unlocked paths)).filter fun path => !path.locations.isEmpty

end RawPath

/-! ## Analysis -/

/-- What is known about a seed. -/
structure Analysis where
  spheres : List (List Location)
  required : LocationSet
  unreachable : LocationSet
  paths : List AnalysisPath

namespace Analysis

/-- A search for everything, with a placement and without some locations. -/
def searchOptions (placement : Placement) (forbidden : List Location) (stopAtGoal : Bool) :
    SearchOptions :=
  { SearchOptions.plain with
    items? := some placement
    recursive := true
    forbidden
    stopAtGoal }

/-- Search from the start areas of the worlds, and report about it. -/
def search (pathfinder : Pathfinder) (options : SearchOptions) : Logged Failure SearchState :=
  (pathfinder.runLogged none options).mapFault .logic

/-- The search up to the goal, which must be reached. -/
def playthrough (pathfinder : Pathfinder) (placement : Placement) :
    Logged Failure SearchState := do
  let state ← search pathfinder (searchOptions placement [] true)
  if state.goal then pure state else .fail .notBeatable

/-- What can be reached without a location, if that misses the goal. -/
def missedWithout? (pathfinder : Pathfinder) (placement : Placement) (location : Location) :
    Option (Location × SearchState) :=
  match pathfinder.run none (searchOptions placement [location] true) with
  | .ok search => if search.state.goal then none else some (location, search.state)
  | .error _ => none

/-- The locations of all worlds, ascending. -/
def allLocations (worlds : List World) : List Location :=
  worlds.zipIdx.flatMap fun entry =>
    (List.range entry.1.checks.length).map fun check => ⟨entry.2, check⟩

/-- The locations that the search to its end does not reach. -/
def findUnreachable (pathfinder : Pathfinder) (placement : Placement) :
    Logged Failure LocationSet := do
  let state ← search pathfinder (searchOptions placement [] false)
  pure <| .ofList <| (allLocations pathfinder.worlds).filter fun location =>
    !state.isReached location

/-! ### Bosses -/

/-- The two ways in which a boss is taken away: the exits of its area, or its events. -/
inductive BossRole where
  | boss
  | endBoss
  deriving DecidableEq, Repr

/-- The area of a boss without what the boss gives access to. -/
def BossRole.block : BossRole → Area → Area
  | .boss, area => { area with exits := [] }
  | .endBoss, area => { area with events := [] }

/-- The path of a boss. -/
def BossRole.pathKind : BossRole → String → WorldId → PathKind
  | .boss, name, world => .boss name world
  | .endBoss, name, world => .endBoss name world

/-- The path of a boss in one world, if the goal is missed without the boss. -/
def bossPath? (pathfinder : Pathfinder) (placement : Placement)
    (missed : List (Location × SearchState)) (role : BossRole) (boss : BossSetting)
    (entry : World × WorldId) : Logged Failure (Option RawPath) :=
  match entry.1.eventId? boss.event with
  | none => do
      .note (.bossUnknown boss.event entry.2)
      pure none
  | some event =>
      match entry.1.areaId? boss.area with
      | none => pure none
      | some area => do
          let world := entry.1.withArea area role.block
          let blocked ← search (pathfinder.withWorld entry.2 world)
            (searchOptions placement [] true)
          if blocked.goal then pure none
          else
            let reached : Goal := fun state => state.hasEvent entry.2 event
            let lost := missed.filter fun loss => !reached loss.2
            pure (some
              ⟨role.pathKind boss.name entry.2, some blocked, reached,
                .ofList (lost.map Prod.fst)⟩)

/-- The paths of several bosses in their worlds. -/
def bossPathsOf (pathfinder : Pathfinder) (placement : Placement)
    (missed : List (Location × SearchState)) (role : BossRole) :
    List (BossSetting × World × WorldId) → Logged Failure (List RawPath)
  | [] => pure []
  | (boss, entry) :: rest => do
      let path? ← bossPath? pathfinder placement missed role boss entry
      let paths ← bossPathsOf pathfinder placement missed role rest
      pure (path?.toList ++ paths)

/-- The paths of bosses, by boss and then by world. -/
def bossPaths (pathfinder : Pathfinder) (placement : Placement)
    (missed : List (Location × SearchState)) (role : BossRole) (bosses : List BossSetting) :
    Logged Failure (List RawPath) :=
  bossPathsOf pathfinder placement missed role <|
    bosses.flatMap fun boss => pathfinder.worlds.zipIdx.map fun entry => (boss, entry)

/-! ### The whole -/

/-- Analyze a seed. -/
def run (pathfinder : Pathfinder) (placement : Placement) (settings : Settings) :
    Logged Failure Analysis := do
  let played ← playthrough pathfinder placement
  .note (.playthroughFound played.spheres.length)
  let missed := played.spheres.flatten.filterMap (missedWithout? pathfinder placement)
  let required : LocationSet := .ofList (missed.map Prod.fst)
  .note (.requiredFound required.size)
  let unreachable ← findUnreachable pathfinder placement
  let bosses ←
    if settings.hintPathBoss then bossPaths pathfinder placement missed .boss settings.bosses
    else pure []
  let endBosses ←
    if settings.hintPathEndBoss then
      bossPaths pathfinder placement missed .endBoss settings.endBosses
    else pure []
  let paths := RawPath.resolve
    (⟨.woth, none, SearchState.goal, required⟩ :: (bosses ++ endBosses))
  .note (.pathsFound paths.length)
  pure ⟨played.spheres, required, unreachable, paths⟩

end Analysis

end SeedLogic
