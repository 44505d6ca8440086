import Mathlib.Data.List.Basic
import Mathlib.Data.List.Nodup
import SeedLogic.Proofs.Analysis.Required
import SeedLogic.Proofs.Text.Decimal

/-!
# Locks between paths

A path locks another if the target of the other is missed without its own, and leaves
to the other nothing that both have (`RawPath.settle`).  The analysis keeps locks by
the keys of paths; if bosses of one list have different names then so have their paths
different keys, and the analysis follows the rule (`Analysis.run_follows_locks`).
-/

namespace SeedLogic

/-! ## Keys -/

namespace PathKind

theorem dot_not_mem_toString (world : WorldId) : '.' ∉ (toString world).toList := by
  intro hdot
  cases Text.isDigit_of_mem_toString hdot

/-- What is written in front of the last dot and behind it is read back. -/
theorem eq_of_append_dot_eq {front back rest other : List Char} (hback : '.' ∉ back)
    (hother : '.' ∉ other) (heq : front ++ '.' :: back = rest ++ '.' :: other) :
    front = rest ∧ back = other := by
  rcases List.append_eq_append_iff.mp heq with ⟨middle, hrest, htail⟩ | ⟨middle, hfront, htail⟩
  · cases middle with
    | nil =>
        cases htail
        exact ⟨by rw [hrest, List.append_nil], rfl⟩
    | cons first middle =>
        cases htail
        exact absurd (List.mem_append_right _ List.mem_cons_self) hback
  · cases middle with
    | nil =>
        cases htail
        exact ⟨by rw [hfront, List.append_nil], rfl⟩
    | cons first middle =>
        cases htail
        exact absurd (List.mem_append_right _ List.mem_cons_self) hother

theorem eq_of_numbered_eq {role name other : String} {world elsewhere : WorldId}
    (hkeys : role ++ name ++ "." ++ toString world =
      role ++ other ++ "." ++ toString elsewhere) :
    name = other ∧ world = elsewhere := by
  have hlists := congrArg String.toList hkeys
  have hdot : ".".toList = ['.'] := rfl
  simp only [String.toList_append, hdot, List.append_assoc, List.singleton_append,
    List.append_cancel_left_eq] at hlists
  rcases eq_of_append_dot_eq (dot_not_mem_toString world) (dot_not_mem_toString elsewhere) hlists
    with ⟨hname, hworld⟩
  exact ⟨String.toList_inj.mp hname, Text.toString_injective (String.toList_inj.mp hworld)⟩

/-- The first letter of a key. -/
def initial : PathKind → Char
  | .woth => 'w'
  | .boss _ _ => 'b'
  | .endBoss _ _ => 'e'

theorem head?_key (kind : PathKind) : kind.key.toList.head? = some kind.initial := by
  cases kind <;> simp [key, initial]

/-- Paths to different targets have different keys. -/
theorem key_injective : Function.Injective PathKind.key := by
  intro left right hkeys
  have hinitials : left.initial = right.initial :=
    Option.some.inj (by rw [← head?_key, ← head?_key, hkeys])
  cases left with
  | woth =>
      cases right with
      | woth => rfl
      | boss => cases hinitials
      | endBoss => cases hinitials
  | boss name world =>
      cases right with
      | woth => cases hinitials
      | boss other elsewhere =>
          rcases eq_of_numbered_eq hkeys with ⟨rfl, rfl⟩
          rfl
      | endBoss => cases hinitials
  | endBoss name world =>
      cases right with
      | woth => cases hinitials
      | boss => cases hinitials
      | endBoss other elsewhere =>
          rcases eq_of_numbered_eq hkeys with ⟨rfl, rfl⟩
          rfl

end PathKind

/-! ## The lock rule -/

namespace RawPath

/-- A path locks another if the target of the other is missed in its blocked state. -/
def locks (locker locked : RawPath) : Bool :=
  match locker.blocked? with
  | none => false
  | some blocked => !locked.reached blocked

/-- The path at an index without the locations of the other paths that lock it. -/
def settled (paths : List RawPath) (entry : RawPath × Nat) : AnalysisPath :=
  ⟨entry.1.kind, entry.1.locations.keep fun location =>
    !paths.zipIdx.any fun other =>
      other.2 != entry.2 && other.1.locks entry.1 && other.1.locations.has location⟩

/-- All paths without the locations of the other paths that lock them, as far as they
have locations left. -/
def settle (paths : List RawPath) : List AnalysisPath :=
  (paths.zipIdx.map (settled paths)).filter fun path => !path.locations.isEmpty

variable {paths : List RawPath}

section Keys

variable (hkeys : (paths.map key).Nodup)
include hkeys

theorem index_eq_of_key_eq {path other : RawPath} {index place : Nat}
    (hpath : (path, index) ∈ paths.zipIdx) (hother : (other, place) ∈ paths.zipIdx)
    (hkey : other.key = path.key) : place = index := by
  rw [List.mk_mem_zipIdx_iff_getElem?] at hpath hother
  have hplaces : (paths.map key)[place]? = (paths.map key)[index]? := by
    rw [List.getElem?_map, List.getElem?_map, hpath, hother, Option.map_some, Option.map_some, hkey]
  have hlt : place < (paths.map key).length := by
    rw [List.length_map]
    exact (List.getElem?_eq_some_iff.mp hother).1
  exact (List.getElem?_inj hlt hkeys).mp hplaces

/-- The last path with a key is the only one. -/
theorem lastWithKey?_eq_some {path : RawPath} {index : Nat}
    (hpath : (path, index) ∈ paths.zipIdx) : lastWithKey? paths path.key = some index := by
  have hself : (path, index) ∈ paths.zipIdx.filter fun entry => entry.1.key == path.key :=
    List.mem_filter.mpr ⟨hpath, beq_self_eq_true _⟩
  cases hlast : (paths.zipIdx.filter fun entry => entry.1.key == path.key).getLast? with
  | none =>
      rw [List.getLast?_eq_none_iff.mp hlast] at hself
      cases hself
  | some entry =>
      rcases List.mem_filter.mp (List.mem_of_getLast? hlast) with ⟨hentry, hkey⟩
      rw [lastWithKey?, hlast, Option.map_some,
        index_eq_of_key_eq hkeys hpath hentry (beq_iff_eq.mp hkey)]

/-- The keys that a path keeps of the paths that it locks are those of the paths that it
locks, but for itself. -/
theorem contains_lockedKeys {path locker : RawPath} {index place : Nat}
    (hpath : (path, index) ∈ paths.zipIdx) :
    (lockedKeys paths locker place).contains path.key =
      (place != index && locker.locks path) := by
  unfold lockedKeys locks
  cases locker.blocked? with
  | none => simp
  | some blocked =>
      rw [Bool.eq_iff_iff, List.contains_iff_mem, List.mem_map]
      simp only [List.mem_filter, Bool.and_eq_true, bne_iff_ne, ne_eq]
      constructor
      · rintro ⟨⟨other, spot⟩, ⟨hother, hspot, hmissed⟩, hkey⟩
        have hsame := index_eq_of_key_eq hkeys hpath hother hkey
        rw [List.mk_mem_zipIdx_iff_getElem?] at hpath hother
        cases hsame
        cases hpath.symm.trans hother
        exact ⟨Ne.symm hspot, hmissed⟩
      · rintro ⟨hplace, hmissed⟩
        exact ⟨(path, index), ⟨hpath, Ne.symm hplace, hmissed⟩, rfl⟩

/-- Where keys are different, locks are resolved by the rule. -/
theorem resolve_eq_settle : resolve paths = settle paths := by
  have hpaths : paths.zipIdx.map (unlocked paths) = paths.zipIdx.map (settled paths) := by
    apply List.map_congr_left
    rintro ⟨path, index⟩ hpath
    have hloses : ∀ location, losesLocation paths path index location =
        paths.zipIdx.any fun other =>
          other.2 != index && other.1.locks path && other.1.locations.has location := by
      intro location
      simp only [losesLocation, lastWithKey?_eq_some hkeys hpath, beq_self_eq_true, Bool.true_and,
        contains_lockedKeys hkeys hpath]
    simp only [unlocked, settled, hloses]
  rw [resolve, settle, hpaths]

end Keys

end RawPath

/-! ## Sets of locations -/

namespace LocationSet

theorem has_iff_mem_keys {set : LocationSet} {location : Location} :
    set.has location = true ↔ location ∈ set.toList := by
  have hlookup : ∀ entries : List (Location × Unit),
      (Dict.lookup? location entries).isSome = true ↔ location ∈ entries.map (·.1) := by
    intro entries
    induction entries with
    | nil => simp [Dict.lookup?]
    | cons entry entries ih =>
        rw [Dict.lookup?, List.map_cons, List.mem_cons]
        split
        case isTrue heq => simp [Std.LawfulEqCmp.eq_of_compare heq]
        case isFalse hne =>
          rw [ih, or_iff_right]
          rintro rfl
          exact hne Std.ReflCmp.compare_self
  exact hlookup set.entries

/-- What is kept of a set is what the test accepts. -/
theorem has_keep {set : LocationSet} {test : Location → Bool} {location : Location} :
    (set.keep test).has location = true ↔
      set.has location = true ∧ test location = true := by
  simp only [has_iff_mem_keys, toList, Dict.keys, keep, List.mem_map, List.mem_filter]
  constructor
  · rintro ⟨entry, ⟨hentry, htest⟩, rfl⟩
    exact ⟨⟨entry, hentry, rfl⟩, htest⟩
  · rintro ⟨⟨entry, hentry, rfl⟩, htest⟩
    exact ⟨entry, ⟨hentry, htest⟩, rfl⟩

theorem has_of_isEmpty {set : LocationSet} (hempty : set.isEmpty = true) (location : Location) :
    set.has location = false := by
  rw [Bool.eq_false_iff, ne_eq, has_iff_mem_keys, toList, Dict.keys, List.isEmpty_iff.mp hempty]
  exact List.not_mem_nil

/-- Sets that have the same locations are the same. -/
theorem ext_has {left right : LocationSet}
    (hsame : ∀ location, left.has location = true ↔ right.has location = true) :
    left = right := by
  have hirrefl : ∀ location : Location, compare location location ≠ .lt := by
    intro location hlt
    rw [Std.ReflOrd.compare_self] at hlt
    cases hlt
  have hsorted : ∀ set : LocationSet, set.toList.Pairwise fun a b => compare a b = .lt :=
    fun set => List.pairwise_map.mpr set.sorted
  have hnodup : ∀ set : LocationSet, set.toList.Nodup := by
    intro set
    refine (hsorted set).imp fun hlt heq => ?_
    rw [heq] at hlt
    exact hirrefl _ hlt
  have hperm : left.toList.Perm right.toList :=
    (List.perm_ext_iff_of_nodup (hnodup left) (hnodup right)).mpr fun location => by
      rw [← has_iff_mem_keys, ← has_iff_mem_keys, hsame]
  have hkeys : left.toList = right.toList := by
    refine hperm.eq_of_pairwise (fun first second _ _ hlt hgt => ?_) (hsorted left) (hsorted right)
    exact absurd (Std.TransCmp.lt_trans hlt hgt) (hirrefl first)
  have hentries : left.entries = right.entries :=
    List.map_injective_iff.mpr (fun first second heq => Prod.ext heq rfl) hkeys
  cases left
  cases right
  cases hentries
  rfl

end LocationSet

namespace Analysis

/-! ## Paths of bosses -/

/-- A boss in a world, and the way in which it is taken away. -/
structure Target where
  role : BossRole
  boss : BossSetting
  world : WorldId

/-- What the path to a target is called. -/
def Target.kind (target : Target) : PathKind :=
  target.role.pathKind target.boss.name target.world

/-- Bosses in all worlds, by boss and then by world. -/
def targetsOf (count : Nat) (role : BossRole) (bosses : List BossSetting) : List Target :=
  bosses.flatMap fun boss => (List.range count).map fun world => ⟨role, boss, world⟩

/-- The targets of settings: the bosses, if their paths are wanted, and then the end
bosses, if theirs are. -/
def targets (count : Nat) (settings : Settings) : List Target :=
  (if settings.hintPathBoss then targetsOf count .boss settings.bosses else []) ++
    if settings.hintPathEndBoss then targetsOf count .endBoss settings.endBosses else []

/-- The raw path to a target: its world knows the event and the area; without the exits of
the area of a boss, or the events of that of an end boss, the goal is missed; and the
locations are those required ones without which the event is lost. -/
def IsPathTo (pathfinder : Pathfinder) (placement : Placement) (required : LocationSet)
    (target : Target) (path : RawPath) : Prop :=
  ∃ world event area blocked,
    pathfinder.world? target.world = some world ∧
    world.eventId? target.boss.event = some event ∧
    world.areaId? target.boss.area = some area ∧
    (pathfinder.withWorld target.world (world.withArea area fun area =>
        match target.role with
        | .boss => { area with exits := [] }
        | .endBoss => { area with events := [] })).run none
      { items? := some placement, starting? := none, recursive := true, forbidden := [],
        stopAtGoal := true, gossips := false } = .ok blocked ∧
    blocked.state.goal = false ∧
    path.kind = target.kind ∧ path.blocked? = some blocked.state ∧
    (path.reached = fun state => state.hasEvent target.world event) ∧
    ∀ location, path.locations.has location = true ↔ required.has location = true ∧
      ∃ without,
        pathfinder.run none
          { items? := some placement, starting? := none, recursive := true,
            forbidden := [location], stopAtGoal := true, gossips := false } = .ok without ∧
        without.state.hasEvent target.world event = false

variable {pathfinder : Pathfinder} {placement : Placement} {settings : Settings}
  {played : SearchState} {role : BossRole}

/-- The locations of a path as the analysis lists them. -/
theorem has_ofList_lost {event : EventId} {id : WorldId} {location : Location} :
    (LocationSet.ofList (((missed pathfinder placement played).filter fun loss =>
        !loss.2.hasEvent id event).map Prod.fst)).has location = true ↔
      (LocationSet.ofList ((missed pathfinder placement played).map Prod.fst)).has location =
          true ∧
        ∃ without, pathfinder.run none (searchOptions placement [location] true) = .ok without ∧
          without.state.hasEvent id event = false := by
  have hloss : ∀ loss ∈ missed pathfinder placement played,
      ∃ search, pathfinder.run none (searchOptions placement [loss.1] true) = .ok search ∧
        search.state = loss.2 := by
    intro loss hmem
    rcases List.mem_filterMap.mp hmem with ⟨found, -, hwithout⟩
    rcases missedWithout?_eq_some.mp hwithout with ⟨rfl, search, hrun, -, hstate⟩
    exact ⟨search, hrun, hstate⟩
  simp only [LocationSet.has_ofList, List.mem_map, List.mem_filter, Bool.not_eq_true']
  constructor
  · rintro ⟨loss, ⟨hmem, hlost⟩, rfl⟩
    rcases hloss loss hmem with ⟨search, hrun, hstate⟩
    exact ⟨⟨loss, hmem, rfl⟩, search, hrun, hstate ▸ hlost⟩
  · rintro ⟨⟨loss, hmem, rfl⟩, without, hwithout, hlost⟩
    rcases hloss loss hmem with ⟨search, hrun, hstate⟩
    cases hrun.symm.trans hwithout
    exact ⟨loss, ⟨hmem, hstate ▸ hlost⟩, rfl⟩

theorem block_eq (role : BossRole) :
    role.block = fun area =>
      match role with
      | .boss => { area with exits := [] }
      | .endBoss => { area with events := [] } := by
  cases role <;> rfl

/-- The analysis finds the path to a target, if there is one. -/
theorem bossPath?_eq_ok_some_iff {boss : BossSetting} {world : World} {id : WorldId}
    (hworld : pathfinder.world? id = some world) {path : RawPath} :
    (bossPath? pathfinder placement (missed pathfinder placement played) role boss
        (world, id)).result = .ok (some path) ↔
      IsPathTo pathfinder placement
        (.ofList ((missed pathfinder placement played).map Prod.fst)) ⟨role, boss, id⟩ path := by
  constructor
  · intro hpath
    unfold bossPath? at hpath
    split at hpath
    case h_1 => cases hpath
    case h_2 event hevent =>
      split at hpath
      case h_1 => cases hpath
      case h_2 area harea =>
        simp only [Recorded.result_bind, Outcome.bind_eq_ok, search_eq_ok_iff] at hpath
        rcases hpath with ⟨state, ⟨blocked, hrun, rfl⟩, hpath⟩
        split at hpath
        case isTrue => cases hpath
        case isFalse hgoal =>
          cases hpath
          rw [block_eq] at hrun
          exact ⟨world, event, area, blocked, hworld, hevent, harea, hrun,
            Bool.eq_false_iff.mpr hgoal, rfl, rfl, rfl, fun location => has_ofList_lost⟩
  · rintro ⟨found, event, area, blocked, hfound, hevent, harea, hrun, hgoal, hkind, hblocked,
      hreached, hlocations⟩
    cases hworld.symm.trans hfound
    have hset : path.locations = .ofList (((missed pathfinder placement played).filter fun loss =>
        !loss.2.hasEvent id event).map Prod.fst) :=
      LocationSet.ext_has fun location => (hlocations location).trans has_ofList_lost.symm
    rcases path with ⟨kind, blocked?, reached, locations⟩
    cases hkind
    cases hblocked
    cases hreached
    cases hset
    have hsearch : (search (pathfinder.withWorld id (world.withArea area role.block))
        (searchOptions placement [] true)).result = .ok blocked.state := by
      rw [block_eq]
      exact search_eq_ok_iff.mpr ⟨blocked, hrun, rfl⟩
    simp only [bossPath?, hevent, harea, Recorded.result_bind]
    rw [hsearch]
    simp only [Outcome.bind_eq_ok]
    refine ⟨_, rfl, ?_⟩
    rw [if_neg (by simp [hgoal])]
    rfl

/-- The path to a target as the analysis finds it. -/
def path? (pathfinder : Pathfinder) (placement : Placement)
    (missed : List (Location × SearchState)) (target : Target) : Option RawPath :=
  (pathfinder.world? target.world).bind fun world =>
    (bossPath? pathfinder placement missed target.role target.boss
      (world, target.world)).result.toOption.join

theorem path?_eq_some_iff {target : Target} {path : RawPath} :
    path? pathfinder placement (missed pathfinder placement played) target = some path ↔
      IsPathTo pathfinder placement
        (.ofList ((missed pathfinder placement played).map Prod.fst)) target path := by
  unfold path?
  cases hworld : pathfinder.world? target.world with
  | none =>
      refine ⟨nofun, ?_⟩
      rintro ⟨world, -, -, -, hfound, -⟩
      cases hworld.symm.trans hfound
  | some world =>
      rw [Option.bind_some, ← bossPath?_eq_ok_some_iff hworld]
      cases (bossPath? pathfinder placement (missed pathfinder placement played) target.role
        target.boss (world, target.world)).result with
      | error fault => exact ⟨nofun, nofun⟩
      | ok found => simp [Except.toOption]

theorem bossPathsOf_eq_filterMap {lost : List (Location × SearchState)}
    {entries : List (BossSetting × World × WorldId)} {paths : List RawPath}
    (hworlds : ∀ entry ∈ entries, pathfinder.world? entry.2.2 = some entry.2.1)
    (hpaths : (bossPathsOf pathfinder placement lost role entries).result = .ok paths) :
    paths = (entries.map fun entry => ⟨role, entry.1, entry.2.2⟩).filterMap
      (path? pathfinder placement lost) := by
  induction entries generalizing paths with
  | nil =>
      cases hpaths
      rfl
  | cons entry entries ih =>
      simp only [bossPathsOf, Recorded.result_bind, Outcome.bind_eq_ok,
        Recorded.result_pure] at hpaths
      rcases hpaths with ⟨first, hfirst, rest, hrest, hpaths⟩
      have hentry : path? pathfinder placement lost ⟨role, entry.1, entry.2.2⟩ = first := by
        simp only [path?, hworlds entry List.mem_cons_self, Option.bind_some, hfirst,
          Except.toOption, Option.join_some]
      rw [List.map_cons, List.filterMap_cons, hentry,
        ← ih (fun other hother => hworlds other (List.mem_cons_of_mem _ hother)) hrest,
        ← Except.ok.inj hpaths]
      cases first <;> rfl

/-- The paths of bosses are those to their targets. -/
theorem bossPaths_eq_filterMap {lost : List (Location × SearchState)} {bosses : List BossSetting}
    {paths : List RawPath}
    (hpaths : (bossPaths pathfinder placement lost role bosses).result = .ok paths) :
    paths = (targetsOf pathfinder.players.length role bosses).filterMap
      (path? pathfinder placement lost) := by
  have htargets : (bosses.flatMap fun boss =>
      pathfinder.worlds.zipIdx.map fun entry => (boss, entry)).map
        (fun entry => (⟨role, entry.1, entry.2.2⟩ : Target)) =
      targetsOf pathfinder.players.length role bosses := by
    have hlength : pathfinder.worlds.length = pathfinder.players.length :=
      List.length_map _
    rw [targetsOf, List.map_flatMap, ← hlength, List.range_eq_range',
      ← List.zipIdx_map_snd 0 pathfinder.worlds]
    simp only [List.map_map]
    rfl
  rw [← htargets]
  refine bossPathsOf_eq_filterMap (fun entry hentry => ?_) hpaths
  rcases List.mem_flatMap.mp hentry with ⟨boss, -, hworld⟩
  rcases List.mem_map.mp hworld with ⟨⟨world, id⟩, hplace, rfl⟩
  rw [← Pathfinder.getElem?_worlds]
  exact List.mk_mem_zipIdx_iff_getElem?.mp hplace

/-! ## Different names -/

/-- No two bosses whose paths are wanted have the same name and the same way in which they
are taken away. -/
structure NamesApart (settings : Settings) : Prop where
  bosses : settings.hintPathBoss = true → (settings.bosses.map BossSetting.name).Nodup
  endBosses : settings.hintPathEndBoss = true → (settings.endBosses.map BossSetting.name).Nodup

theorem pathKind_inj {role : BossRole} {name other : String} {world elsewhere : WorldId} :
    role.pathKind name world = role.pathKind other elsewhere ↔
      name = other ∧ world = elsewhere := by
  cases role <;> simp [BossRole.pathKind]

theorem nodup_kinds_targetsOf {count : Nat} {bosses : List BossSetting}
    (hnames : (bosses.map BossSetting.name).Nodup) :
    ((targetsOf count role bosses).map Target.kind).Nodup := by
  rw [targetsOf, List.map_flatMap, List.nodup_flatMap]
  constructor
  · intro boss _
    rw [List.map_map]
    refine List.nodup_range.map fun world elsewhere hkinds => ?_
    exact (pathKind_inj.mp hkinds).2
  · refine (List.pairwise_map.mp hnames).imp fun {boss other} hapart => ?_
    intro kind hboss hother
    simp only [List.mem_map, List.mem_range] at hboss hother
    rcases hboss with ⟨_, ⟨world, -, rfl⟩, rfl⟩
    rcases hother with ⟨_, ⟨elsewhere, -, rfl⟩, hkinds⟩
    exact hapart (pathKind_inj.mp hkinds).1.symm

theorem exists_of_mem_kinds {count : Nat} {bosses : List BossSetting} {kind : PathKind}
    (hkind : kind ∈ (targetsOf count role bosses).map Target.kind) :
    ∃ name world, kind = role.pathKind name world := by
  rcases List.mem_map.mp hkind with ⟨target, htarget, rfl⟩
  rcases List.mem_flatMap.mp htarget with ⟨boss, -, hworld⟩
  rcases List.mem_map.mp hworld with ⟨world, -, rfl⟩
  exact ⟨boss.name, world, rfl⟩

/-- Where names are different, so is what the targets are called, which is never the
path to the goal. -/
theorem nodup_kinds_targets (hnames : NamesApart settings) (count : Nat) :
    (PathKind.woth :: (targets count settings).map Target.kind).Nodup := by
  have hpart : ∀ (role : BossRole) {wanted : Bool} {bosses : List BossSetting},
      (wanted = true → (bosses.map BossSetting.name).Nodup) →
        ((if wanted then targetsOf count role bosses else []).map Target.kind).Nodup ∧
        ∀ kind ∈ (if wanted then targetsOf count role bosses else []).map Target.kind,
          ∃ name world, kind = role.pathKind name world := by
    intro role wanted bosses hnames
    cases wanted with
    | false => exact ⟨List.nodup_nil, nofun⟩
    | true => exact ⟨nodup_kinds_targetsOf (hnames rfl), fun _ => exists_of_mem_kinds⟩
  rcases hpart .boss hnames.bosses with ⟨hbosses, hboss⟩
  rcases hpart .endBoss hnames.endBosses with ⟨hendBosses, hendBoss⟩
  rw [targets, List.map_append, List.nodup_cons, List.mem_append]
  constructor
  · rintro (hwoth | hwoth)
    · rcases hboss _ hwoth with ⟨name, world, hkind⟩
      cases hkind
    · rcases hendBoss _ hwoth with ⟨name, world, hkind⟩
      cases hkind
  · refine hbosses.append hendBosses fun kind hkind hother => ?_
    rcases hboss _ hkind with ⟨name, world, rfl⟩
    rcases hendBoss _ hother with ⟨other, elsewhere, hsame⟩
    cases hsame

/-- Found paths are called what their targets are. -/
theorem kinds_sublist {found : Target → Option RawPath}
    (hkind : ∀ {target path}, found target = some path → path.kind = target.kind)
    (targets : List Target) :
    ((targets.filterMap found).map RawPath.kind).Sublist (targets.map Target.kind) := by
  induction targets with
  | nil => exact .slnil
  | cons target targets ih =>
      cases hfound : found target with
      | none =>
          rw [List.filterMap_cons_none hfound]
          exact ih.cons _
      | some path =>
          rw [List.filterMap_cons_some hfound, List.map_cons, List.map_cons, hkind hfound]
          exact ih.cons_cons _

/-! ## The whole -/

/-- The paths of an analysis follow the lock rule: there are the raw paths to the goal
and, in the order of the settings, to the targets that have one; from each the locations
of the other paths that lock it are removed, and those left empty are dropped. -/
def FollowsLocks (pathfinder : Pathfinder) (placement : Placement) (settings : Settings)
    (analysis : Analysis) : Prop :=
  ∃ path? : Target → Option RawPath,
    (∀ target path, path? target = some path ↔
      IsPathTo pathfinder placement analysis.required target path) ∧
    analysis.paths = RawPath.settle (⟨.woth, none, SearchState.goal, analysis.required⟩ ::
      (targets pathfinder.players.length settings).filterMap path?)

/-- The lock rule leaves no choice: its raw paths are those that the analysis finds. -/
theorem followsLocks_iff {analysis : Analysis}
    (hrequired : analysis.required =
      .ofList ((missed pathfinder placement played).map Prod.fst)) :
    FollowsLocks pathfinder placement settings analysis ↔
      analysis.paths = RawPath.settle (⟨.woth, none, SearchState.goal, analysis.required⟩ ::
        (targets pathfinder.players.length settings).filterMap
          (path? pathfinder placement (missed pathfinder placement played))) := by
  have hfound := @path?_eq_some_iff pathfinder placement played
  rw [← hrequired] at hfound
  constructor
  · rintro ⟨found, hpaths, heq⟩
    have hsame : found = path? pathfinder placement (missed pathfinder placement played) := by
      funext target
      exact Option.ext fun path => (hpaths target path).trans hfound.symm
    rw [← hsame]
    exact heq
  · exact fun heq => ⟨_, fun target path => hfound, heq⟩

/-- The raw paths of an analysis: the one to the goal, and then those to the targets of
the settings that have one. -/
def rawPaths (pathfinder : Pathfinder) (placement : Placement) (settings : Settings)
    (played : SearchState) : List RawPath :=
  ⟨.woth, none, SearchState.goal, .ofList ((missed pathfinder placement played).map Prod.fst)⟩ ::
    (targets pathfinder.players.length settings).filterMap
      (path? pathfinder placement (missed pathfinder placement played))

/-- An analysis resolves the locks of its raw paths. -/
theorem exists_rawPaths_of_run {analysis : Analysis}
    (hrun : (run pathfinder placement settings).result = .ok analysis) :
    ∃ played, analysis.required = .ofList ((missed pathfinder placement played).map Prod.fst) ∧
      analysis.paths = RawPath.resolve (rawPaths pathfinder placement settings played) := by
  rcases exists_stages_of_run hrun with
    ⟨played, unreachable, bosses, endBosses, -, -, hbosses, hendBosses, rfl⟩
  have hwanted : ∀ {wanted : Bool} {role : BossRole} {listed : List BossSetting}
      {paths : List RawPath},
      (pathsIf wanted (bossPaths pathfinder placement (missed pathfinder placement played) role
        listed)).result = .ok paths →
      paths = (if wanted then targetsOf pathfinder.players.length role listed else []).filterMap
        (path? pathfinder placement (missed pathfinder placement played)) := by
    intro wanted role listed paths hpaths
    cases wanted with
    | false =>
        cases hpaths
        rfl
    | true => exact bossPaths_eq_filterMap hpaths
  refine ⟨played, rfl, ?_⟩
  rw [hwanted hbosses, hwanted hendBosses, ← List.filterMap_append]
  rfl

/-- A raw path is called what its target is. -/
theorem kind_of_path? {target : Target} {path : RawPath}
    (hpath : path? pathfinder placement (missed pathfinder placement played) target = some path) :
    path.kind = target.kind := by
  rcases path?_eq_some_iff.mp hpath with ⟨_, _, _, _, -, -, -, -, -, hkind, -⟩
  exact hkind

/-- Where names are different, raw paths are called differently. -/
theorem nodup_kinds_rawPaths (hnames : NamesApart settings) :
    ((rawPaths pathfinder placement settings played).map RawPath.kind).Nodup :=
  (nodup_kinds_targets hnames pathfinder.players.length).sublist
    ((kinds_sublist kind_of_path? (targets pathfinder.players.length settings)).cons_cons
      PathKind.woth)

/-- Where names are different, locks are resolved by the rule. -/
theorem resolve_rawPaths_eq_settle (hnames : NamesApart settings) :
    RawPath.resolve (rawPaths pathfinder placement settings played) =
      RawPath.settle (rawPaths pathfinder placement settings played) := by
  apply RawPath.resolve_eq_settle
  have hkinds : ((rawPaths pathfinder placement settings played).map RawPath.kind).Nodup :=
    nodup_kinds_rawPaths hnames
  have hkeys := hkinds.map PathKind.key_injective
  rw [List.map_map] at hkeys
  exact hkeys

/-- An analysis follows the lock rule when bosses have different names. -/
theorem run_follows_locks {analysis : Analysis} (hnames : NamesApart settings)
    (hrun : (run pathfinder placement settings).result = .ok analysis) :
    FollowsLocks pathfinder placement settings analysis := by
  rcases exists_rawPaths_of_run hrun with ⟨played, hrequired, hpaths⟩
  rw [followsLocks_iff hrequired, hpaths, resolve_rawPaths_eq_settle hnames, rawPaths, hrequired]

/-! ### Twins

Behind a boss room lies the end.  The chest at the start opens the boss room, and the
chest of the boss opens the end. -/

/-- The table of the two rooms. -/
def twinsTable : GameTable :=
  { GameTable.bare .oot with
    start := ["Start"]
    areas := .ofList [
      ("Start",
        { RawArea.bare with
          locations := .ofList [("Free Chest", "true")]
          exits := .ofList [("Boss Room", "has(SWORD)"), ("End", "has(HEART)")] }),
      ("Boss Room",
        { RawArea.bare with
          locations := .ofList [("Boss Chest", "event(BOSS)")]
          events := .ofList [("BOSS", "true")] }),
      ("End", { RawArea.bare with events := .ofList [("WIN", "true")] })]
    pool := [⟨"Free Chest", .numeric .chest, "S", .number 0, "SWORD"⟩,
      ⟨"Boss Chest", .numeric .chest, "S", .number 1, "HEART"⟩] }

/-- The world that is built from it. -/
def twins : World where
  areas := [
    ⟨"OOT Boss Room", .oot, none, [⟨1, .hasEvent 0⟩], [], [⟨0, .const true⟩], []⟩,
    ⟨"OOT End", .oot, none, [], [], [⟨1, .const true⟩], []⟩,
    ⟨"OOT Start", .oot, none, [⟨0, .const true⟩], [⟨0, .hasItem 0 1⟩, ⟨1, .hasItem 1 1⟩], [], []⟩]
  checks := [
    ⟨"OOT Free Chest", .oot, "OOT_S", "OOT_SWORD", .numeric .chest 0, .anywhere, none⟩,
    ⟨"OOT Boss Chest", .oot, "OOT_S", "OOT_HEART", .numeric .chest 1, .anywhere, none⟩]
  gossips := []
  dungeons := .empty
  starts := [2]
  symbols := ⟨⟨["OOT_SWORD", "OOT_HEART"], by decide⟩, ⟨["OOT_BOSS", "OOT_WIN"], by decide⟩,
    .empty⟩

theorem built_twins : twins.Built :=
  ⟨[twinsTable], .empty, fun _ => .anywhere, rfl⟩

/-- A player of the two rooms who is after the end. -/
def twinsSolver : Pathfinder where
  players := [⟨twins, ⟨#[]⟩⟩]
  starting := ⟨[[]], [[]]⟩
  goal := .events [(0, 1)]

/-- Settings that ask for the paths to the end and to the boss, as end bosses of given
names. -/
def twinsSettings (last first : String) : Settings :=
  { Settings.default with
    goalEvents := ["OOT_WIN"]
    hintPathEndBoss := true
    endBosses := [⟨last, "OOT End", "OOT_WIN"⟩, ⟨first, "OOT Boss Room", "OOT_BOSS"⟩] }

/-- What is known about the two rooms, but for the paths. -/
def twinsAnalysis (paths : List AnalysisPath) : Analysis where
  spheres := [[⟨0, 0⟩], [⟨0, 1⟩]]
  required := .ofList [⟨0, 0⟩, ⟨0, 1⟩]
  unreachable := .empty
  paths

/-! ### A gate

The way to the end leads through the room of a guard.  The chest at the start opens it. -/

/-- The world of the guard. -/
def gate : World where
  areas := [
    ⟨"OOT End", .oot, none, [], [], [⟨1, .const true⟩], []⟩,
    ⟨"OOT Guard Room", .oot, none, [], [⟨0, .const true⟩], [⟨0, .const true⟩], []⟩,
    ⟨"OOT Start", .oot, none, [⟨0, .const true⟩], [⟨1, .hasItem 0 1⟩], [], []⟩]
  checks := [⟨"OOT Free Chest", .oot, "OOT_S", "OOT_SWORD", .numeric .chest 0, .anywhere, none⟩]
  gossips := []
  dungeons := .empty
  starts := [2]
  symbols := ⟨⟨["OOT_SWORD"], List.nodup_singleton _⟩, ⟨["OOT_GUARD", "OOT_WIN"], by decide⟩,
    .empty⟩

/-- A player who is after the end behind the guard. -/
def gateSolver : Pathfinder where
  players := [⟨gate, ⟨#[]⟩⟩]
  starting := ⟨[[]], [[]]⟩
  goal := .events [(0, 1)]

/-- Settings that ask for the path to the guard, as a boss. -/
def gateSettings : Settings :=
  { Settings.default with
    goalEvents := ["OOT_WIN"]
    hintPathBoss := true
    bosses := [⟨"Guard", "OOT Guard Room", "OOT_GUARD"⟩] }

/-- What is known about the gate: without the exits of the guard's room the end is missed, so
that the guard has a path, which locks the one to the goal. -/
def gateAnalysis : Analysis where
  spheres := [[⟨0, 0⟩]]
  required := .ofList [⟨0, 0⟩]
  unreachable := .empty
  paths := [⟨.boss "Guard" 0, .ofList [⟨0, 0⟩]⟩]

/-- The boss room locks the end, and leaves it only the chest of the boss; the guard of the
gate locks the goal, and leaves it nothing. -/
theorem run_twins_follows_locks :
    (NamesApart (twinsSettings "Last" "First") ∧
      (run twinsSolver (.vanilla [twins]) (twinsSettings "Last" "First")).result =
        .ok (twinsAnalysis
          [⟨.endBoss "Last" 0, .ofList [⟨0, 1⟩]⟩, ⟨.endBoss "First" 0, .ofList [⟨0, 0⟩]⟩]) ∧
      FollowsLocks twinsSolver (.vanilla [twins]) (twinsSettings "Last" "First") (twinsAnalysis
        [⟨.endBoss "Last" 0, .ofList [⟨0, 1⟩]⟩, ⟨.endBoss "First" 0, .ofList [⟨0, 0⟩]⟩])) ∧
    NamesApart gateSettings ∧
      (run gateSolver (.vanilla [gate]) gateSettings).result = .ok gateAnalysis ∧
      FollowsLocks gateSolver (.vanilla [gate]) gateSettings gateAnalysis := by
  have htwins : NamesApart (twinsSettings "Last" "First") := ⟨nofun, fun _ => by decide⟩
  have hgate : NamesApart gateSettings := ⟨fun _ => by decide, nofun⟩
  exact ⟨⟨htwins, rfl, run_follows_locks htwins rfl⟩, hgate, rfl, run_follows_locks hgate rfl⟩

/-- With one name for both, the lock of the boss room falls on the boss room itself. -/
theorem run_twins_breaks_locks :
    twins.Built ∧
      (run twinsSolver (.vanilla [twins]) (twinsSettings "Twins" "Twins")).result =
        .ok (twinsAnalysis [⟨.endBoss "Twins" 0, .ofList [⟨0, 0⟩, ⟨0, 1⟩]⟩]) ∧
      ¬FollowsLocks twinsSolver (.vanilla [twins]) (twinsSettings "Twins" "Twins")
        (twinsAnalysis [⟨.endBoss "Twins" 0, .ofList [⟨0, 0⟩, ⟨0, 1⟩]⟩]) := by
  refine ⟨built_twins, rfl, fun hfollows => ?_⟩
  have hrequired : LocationSet.ofList [⟨0, 0⟩, ⟨0, 1⟩] = .ofList
      ((missed twinsSolver (.vanilla [twins]) ⟨[], [[⟨0, 0⟩], [⟨0, 1⟩]], true⟩).map Prod.fst) := rfl
  -- By the rule there are two paths, as above.
  have hpaths := congrArg List.length ((followsLocks_iff hrequired).mp hfollows)
  cases hpaths

end Analysis

end SeedLogic
