import SeedLogic.Proofs.Formula.Meaning
import SeedLogic.Proofs.Pathfinder.Earliest
import SeedLogic.Proofs.Requirement.Shape
import SeedLogic.Proofs.World.Depiction

/-!
# Reaching by name

What can be reached in a built world, said without numbers: by rules that are read off the
entries of the tables and lead from names to names (`NamedSearch.Enabled`).  They are the
rules of the world with names for numbers (`exists_enabled_of_named`,
`exists_named_of_enabled`), so that what is the least set closed under the rules is the least
set of names closed under them once it is named (`isLeast_named`).
-/

namespace SeedLogic

/-! ## Names of facts -/

/-- Something that can be reached, by name. -/
inductive NamedFact where
  | area (name : String)
  | event (name : String)
  | location (name : String)

namespace World

/-- The name of a fact about the world of the first player. -/
def nameOf? (world : World) : Fact → Option NamedFact
  | .area 0 area => (world.areaName? area).map .area
  | .event 0 event => (world.eventName? event).map .event
  | .location ⟨0, check⟩ => (world.checkName? check).map .location
  | _ => none

/-- The names of facts. -/
def named (world : World) (facts : Set Fact) : Set NamedFact :=
  {name | ∃ fact ∈ facts, world.nameOf? fact = some name}

/-- Facts are those with some names. -/
def Matches (world : World) (facts : Set Fact) (reached : Set NamedFact) : Prop :=
  ∀ {fact : Fact} {name : NamedFact}, world.nameOf? fact = some name →
    (fact ∈ facts ↔ name ∈ reached)

variable {world : World} {fact other : Fact} {name : String}

theorem nameOf?_eq_area_iff : world.nameOf? fact = some (.area name) ↔
    ∃ area, fact = .area 0 area ∧ world.areaName? area = some name := by
  unfold nameOf?
  split <;> simp_all

theorem nameOf?_eq_event_iff : world.nameOf? fact = some (.event name) ↔
    ∃ event, fact = .event 0 event ∧ world.eventName? event = some name := by
  unfold nameOf?
  split <;> simp_all

theorem nameOf?_eq_location_iff : world.nameOf? fact = some (.location name) ↔
    ∃ check, fact = .location ⟨0, check⟩ ∧ world.checkName? check = some name := by
  unfold nameOf?
  split <;> simp_all

theorem eq_of_getElem?_eq {α : Type} {entries : List α} (hnodup : entries.Nodup) {left right : Nat}
    {entry : α} (hleft : entries[left]? = some entry) (hright : entries[right]? = some entry) :
    left = right :=
  (List.getElem?_inj (List.getElem?_eq_some_iff.mp hleft).1 hnodup).mp (hleft.trans hright.symm)

theorem eq_of_getElem?_singleton {α : Type} {entry found : α} {id : Nat}
    (hfound : [entry][id]? = some found) : id = 0 ∧ found = entry := by
  rw [List.getElem?_singleton] at hfound
  split at hfound
  case isTrue hzero => exact ⟨hzero, (Option.some.inj hfound).symm⟩
  case isFalse => cases hfound

section Coherent

variable {tables : List GameTable} {options : Options} (hcoherent : world.Coherent tables options)
include hcoherent

/-- A name is that of one fact. -/
theorem nameOf?_inj {name : NamedFact} (hfact : world.nameOf? fact = some name)
    (hother : world.nameOf? other = some name) : fact = other := by
  cases name with
  | area name =>
      rcases nameOf?_eq_area_iff.mp hfact with ⟨left, rfl, hleft⟩
      rcases nameOf?_eq_area_iff.mp hother with ⟨right, rfl, hright⟩
      rw [eq_of_getElem?_eq hcoherent.areas hleft hright]
  | event name =>
      rcases nameOf?_eq_event_iff.mp hfact with ⟨left, rfl, hleft⟩
      rcases nameOf?_eq_event_iff.mp hother with ⟨right, rfl, hright⟩
      rw [eq_of_getElem?_eq world.symbols.events.nodup hleft hright]
  | location name =>
      rcases nameOf?_eq_location_iff.mp hfact with ⟨left, rfl, hleft⟩
      rcases nameOf?_eq_location_iff.mp hother with ⟨right, rfl, hright⟩
      rw [eq_of_getElem?_eq hcoherent.checks hleft hright]

theorem matches_named (facts : Set Fact) : world.Matches facts (world.named facts) := by
  intro fact name hname
  constructor
  · exact fun hfact => ⟨fact, hfact, hname⟩
  · rintro ⟨other, hother, hsame⟩
    exact nameOf?_inj hcoherent hsame hname ▸ hother

theorem areaId?_eq_some_iff {id : AreaId} :
    world.areaId? name = some id ↔ world.areaName? id = some name := by
  rw [hcoherent.areaId?, areaName?, List.getElem?_map, Option.map_eq_some_iff]

theorem checkId?_eq_some_iff {id : CheckId} :
    world.checkId? name = some id ↔ world.checkName? id = some name := by
  rw [hcoherent.checkId?, checkName?, List.getElem?_map, Option.map_eq_some_iff]

end Coherent

end World

/-! ## Searches by name -/

/-- A search for one player, all of whose terms are names. -/
structure NamedSearch where
  start? : Option (List String)
  items : List (String × Nat)
  events : List String
  placement : Dict String String
  forbidden : List String
  gossips : Bool

/-- What a text says is true. -/
def Language.IsTrue (language : Language) (view : View) (text : String) : Prop :=
  ∃ formula, language.Reads text formula ∧ formula.truth view = true

/-- A requirement is true when the text that it renders is, by what its names stand for. -/
theorem Language.Renders.holds_iff {language : Language} {symbols : Symbols} {text : String}
    {requirement : Requirement} (hrenders : language.Renders symbols text requirement)
    {reading : Reading} {view : View} (hagrees : symbols.Agrees reading view) :
    requirement.Holds reading ↔ language.IsTrue view text := by
  rcases hrenders with ⟨formula, hreads, hknown, rfl⟩
  rw [Formula.holds_compile_iff hagrees hknown]
  constructor
  · exact fun htrue => ⟨formula, hreads, htrue⟩
  · rintro ⟨other, hother, htrue⟩
    exact hreads.unique hother ▸ htrue

namespace NamedSearch

/-- Is an area of this name one to start from? -/
def IsStart (names : NamedSearch) (declared : List Declaration) (name : String) : Prop :=
  match names.start? with
  | none => .start name ∈ declared
  | some starts => name ∈ starts

open Classical in
/-- What names stand for when there are some items and some facts are reached. -/
noncomputable def view (settings : Options) (count : String → Nat) (reached : Set NamedFact) :
    View where
  count
  event name := decide (.event name ∈ reached)
  setting := settings.isEnabled

/-- A name follows from some others by one rule, when there are some items. -/
inductive Enabled (names : NamedSearch) (settings : Options) (declared : List Declaration)
    (count : String → Nat) (reached : Set NamedFact) : NamedFact → Prop where
  | start {name : String} : names.IsStart declared name →
      Enabled names settings declared count reached (.area name)
  | given {name : String} : name ∈ names.events →
      Enabled names settings declared count reached (.event name)
  | exit {language : Language} {entry : String × RawArea} {text : String × String} :
      .area language entry ∈ declared → .area (language.game.placeName entry.1) ∈ reached →
      text ∈ entry.2.exits.entries → language.IsTrue (view settings count reached) text.2 →
      Enabled names settings declared count reached (.area (language.game.placeName text.1))
  | event {language : Language} {entry : String × RawArea} {text : String × String} :
      .area language entry ∈ declared → .area (language.game.placeName entry.1) ∈ reached →
      text ∈ entry.2.events.entries → language.IsTrue (view settings count reached) text.2 →
      Enabled names settings declared count reached (.event (language.game.symbolName text.1))
  | location {language : Language} {entry : String × RawArea} {text : String × String} :
      .area language entry ∈ declared → .area (language.game.placeName entry.1) ∈ reached →
      text ∈ entry.2.locations.entries → language.IsTrue (view settings count reached) text.2 →
      language.game.placeName text.1 ∉ names.forbidden →
      Enabled names settings declared count reached (.location (language.game.placeName text.1))

/-- Every name that follows is there. -/
def RuleClosed (names : NamedSearch) (settings : Options) (declared : List Declaration)
    (count : String → Nat) (reached : Set NamedFact) : Prop :=
  ∀ fact, names.Enabled settings declared count reached fact → fact ∈ reached

/-- Options say by number what a search says by name, and nothing is collected. -/
structure Numbers (names : NamedSearch) (settings : Options) (count : String → Nat)
    (world : World) (pathfinder : Pathfinder) (options : SearchOptions) : Prop where
  players : pathfinder.players = [⟨world, world.resolveSettings settings⟩]
  events : ∀ event, event ∈ (pathfinder.startingOf options).eventsOf 0 ↔
    ∃ name ∈ names.events, world.eventName? event = some name
  count : ∀ {item name}, world.itemName? item = some name →
    (pathfinder.startingOf options).count 0 item = count name
  collected : ∀ location, options.collected? location = none
  forbidden : ∀ check, (⟨0, check⟩ : Location) ∈ options.forbidden ↔
    ∃ name ∈ names.forbidden, world.checkName? check = some name

/-! ## Rules by number and by name -/

section Rules

variable {names : NamedSearch} {settings : Options} {declared : List Declaration}
  {count : String → Nat} {world : World} {pathfinder : Pathfinder} {options : SearchOptions}
  {tables : List GameTable} {known : Options} {facts : Set Fact} {reached : Set NamedFact}

/-- The settings of a solver are those of its options. -/
theorem has_resolveSettings {key : SettingKey} (hmem : key ∈ world.symbols.settings.keys) :
    (world.resolveSettings settings).has (world.symbols.settings.idOf key) =
      settings.isEnabled key := by
  simp [World.resolveSettings, Flags.has, NameTable.getElem?_idOf hmem]

/-- What is known by number is what is known by name. -/
theorem agrees_known (hnumbers : names.Numbers settings count world pathfinder options)
    (hmatches : world.Matches facts reached) :
    world.symbols.Agrees
      (pathfinder.known options facts 0 ⟨world, world.resolveSettings settings⟩)
      (view settings count reached) := by
  constructor
  · intro name hmem
    have hnone := Pathfinder.holding_eq_empty hnumbers.collected facts 0
      (world.symbols.items.idOf name)
    have hcount := hnumbers.count (NameTable.getElem?_idOf hmem)
    simp only [Pathfinder.known, hnone, Set.ncard_empty, Nat.add_zero, hcount, view]
  · intro name hmem
    have hname : world.nameOf? (.event 0 (world.symbols.events.idOf name)) =
        some (.event name) :=
      World.nameOf?_eq_event_iff.mpr ⟨_, rfl, NameTable.getElem?_idOf hmem⟩
    simp only [view, decide_eq_true_iff]
    exact hmatches hname
  · intro key hmem
    simp only [Pathfinder.known, view, ← has_resolveSettings hmem]
    rfl

variable (hdepicts : world.Depicts declared)
include hdepicts

/-- A reached area follows a declared one, whose name is reached. -/
theorem exists_entry_of_reached (hmatches : world.Matches facts reached)
    {entry : Area × AreaId} (hentry : entry ∈ world.areas.zipIdx)
    (hreached : Fact.area 0 entry.2 ∈ facts) :
    ∃ language raw, .area language raw ∈ declared ∧
      .area (language.game.placeName raw.1) ∈ reached ∧ world.Follows language raw entry.1 := by
  rcases hdepicts.areas entry.1 (List.fst_mem_of_mem_zipIdx hentry) with
    ⟨language, raw, hraw, hfollows⟩
  have hplace := List.mk_mem_zipIdx_iff_getElem?.mp hentry
  have hname : world.areaName? entry.2 = some (language.game.placeName raw.1) := by
    rw [World.areaName?, List.getElem?_map, hplace, Option.map_some, hfollows.name]
  exact ⟨language, raw, hraw,
    (hmatches (World.nameOf?_eq_area_iff.mpr ⟨_, rfl, hname⟩)).mp hreached, hfollows⟩

/-- A declared area whose name is reached is followed by a reached one. -/
theorem exists_area_of_reached (hmatches : world.Matches facts reached) {language : Language}
    {raw : String × RawArea} (hraw : .area language raw ∈ declared)
    (hreached : .area (language.game.placeName raw.1) ∈ reached) :
    ∃ entry ∈ world.areas.zipIdx, Fact.area 0 entry.2 ∈ facts ∧
      world.Follows language raw entry.1 := by
  rcases hdepicts.described hraw with ⟨area, harea, hfollows⟩
  rcases List.mem_iff_getElem?.mp harea with ⟨id, hid⟩
  have hname : world.areaName? id = some (language.game.placeName raw.1) := by
    rw [World.areaName?, List.getElem?_map, hid, Option.map_some, hfollows.name]
  exact ⟨(area, id), List.mk_mem_zipIdx_iff_getElem?.mpr hid,
    (hmatches (World.nameOf?_eq_area_iff.mpr ⟨_, rfl, hname⟩)).mpr hreached, hfollows⟩

variable (hcoherent : world.Coherent tables known)
include hcoherent

/-- Start areas are those with the names of start areas. -/
theorem isStart_iff {area : AreaId} :
    Pathfinder.IsStart names.start? world area ↔
      ∃ name, names.IsStart declared name ∧ world.areaName? area = some name := by
  unfold Pathfinder.IsStart IsStart
  cases names.start? with
  | none =>
      simp only [hdepicts.starts]
      constructor
      · intro hstart
        have hlt := hcoherent.linked.starts area hstart
        have hname := List.getElem?_eq_getElem (by rwa [List.length_map] :
          area < (world.areas.map Area.name).length)
        exact ⟨_, ⟨area, hstart, hname⟩, hname⟩
      · rintro ⟨name, ⟨other, hother, hsame⟩, hname⟩
        exact World.eq_of_getElem?_eq hcoherent.areas hsame hname ▸ hother
  | some starts => simp only [World.areaId?_eq_some_iff hcoherent]

variable (hnumbers : names.Numbers settings count world pathfinder options)
include hnumbers

/-- What follows by number follows by name. -/
theorem exists_named_of_enabled (hmatches : world.Matches facts reached) {fact : Fact}
    (henabled : pathfinder.Enabled names.start? options facts fact) :
    ∃ name, world.nameOf? fact = some name ∧
      names.Enabled settings declared count reached name := by
  have hagrees := agrees_known hnumbers hmatches
  have honly : ∀ {id : WorldId} {player : Player}, pathfinder.players[id]? = some player →
      id = 0 ∧ player = ⟨world, world.resolveSettings settings⟩ := by
    intro id player hplayer
    rw [hnumbers.players] at hplayer
    exact World.eq_of_getElem?_singleton hplayer
  cases henabled with
  | start hplayer hstart =>
      rcases honly hplayer with ⟨rfl, rfl⟩
      rcases (isStart_iff hdepicts hcoherent).mp hstart with ⟨name, hstart, hname⟩
      exact ⟨_, World.nameOf?_eq_area_iff.mpr ⟨_, rfl, hname⟩, .start hstart⟩
  | given hplayer hgiven =>
      rcases honly hplayer with ⟨rfl, rfl⟩
      rcases (hnumbers.events _).mp hgiven with ⟨name, hgiven, hname⟩
      exact ⟨_, World.nameOf?_eq_event_iff.mpr ⟨_, rfl, hname⟩, .given hgiven⟩
  | exit hplayer hentry hreached hgate hholds =>
      rcases honly hplayer with ⟨rfl, rfl⟩
      rcases exists_entry_of_reached hdepicts hmatches hentry hreached with
        ⟨language, raw, hraw, hreached, hfollows⟩
      rcases exists_of_mem_right hfollows.exits hgate with ⟨text, htext, hgate⟩
      exact ⟨_, World.nameOf?_eq_area_iff.mpr ⟨_, rfl, hgate.target⟩,
        .exit hraw hreached htext ((hgate.requirement.holds_iff hagrees).mp hholds)⟩
  | event hplayer hentry hreached hgate hholds =>
      rcases honly hplayer with ⟨rfl, rfl⟩
      rcases exists_entry_of_reached hdepicts hmatches hentry hreached with
        ⟨language, raw, hraw, hreached, hfollows⟩
      rcases exists_of_mem_right hfollows.events hgate with ⟨text, htext, hgate⟩
      exact ⟨_, World.nameOf?_eq_event_iff.mpr ⟨_, rfl, hgate.target⟩,
        .event hraw hreached htext ((hgate.requirement.holds_iff hagrees).mp hholds)⟩
  | location hplayer hentry hreached hgate hholds hallowed =>
      rcases honly hplayer with ⟨rfl, rfl⟩
      rcases exists_entry_of_reached hdepicts hmatches hentry hreached with
        ⟨language, raw, hraw, hreached, hfollows⟩
      rcases exists_of_mem_right hfollows.locations hgate with ⟨text, htext, hgate⟩
      refine ⟨_, World.nameOf?_eq_location_iff.mpr ⟨_, rfl, hgate.target⟩,
        .location hraw hreached htext ((hgate.requirement.holds_iff hagrees).mp hholds) ?_⟩
      exact fun hforbidden => hallowed ((hnumbers.forbidden _).mpr ⟨_, hforbidden, hgate.target⟩)

/-- What follows by name follows by number. -/
theorem exists_enabled_of_named
    (hstarts : ∀ name, names.IsStart declared name → ∃ area, world.areaName? area = some name)
    (hevents : ∀ name ∈ names.events, ∃ event, world.eventName? event = some name)
    (hmatches : world.Matches facts reached) {name : NamedFact}
    (henabled : names.Enabled settings declared count reached name) :
    ∃ fact, world.nameOf? fact = some name ∧
      pathfinder.Enabled names.start? options facts fact := by
  have hagrees := agrees_known hnumbers hmatches
  have hplayer : pathfinder.players[0]? = some ⟨world, world.resolveSettings settings⟩ := by
    rw [hnumbers.players]
    rfl
  cases henabled with
  | @start name hstart =>
      rcases hstarts name hstart with ⟨area, hname⟩
      exact ⟨_, World.nameOf?_eq_area_iff.mpr ⟨_, rfl, hname⟩,
        .start hplayer ((isStart_iff hdepicts hcoherent).mpr ⟨name, hstart, hname⟩)⟩
  | @given name hgiven =>
      rcases hevents name hgiven with ⟨event, hname⟩
      exact ⟨_, World.nameOf?_eq_event_iff.mpr ⟨_, rfl, hname⟩,
        .given hplayer ((hnumbers.events event).mpr ⟨name, hgiven, hname⟩)⟩
  | exit hraw hreached htext htrue =>
      rcases exists_area_of_reached hdepicts hmatches hraw hreached with
        ⟨entry, hentry, hreached, hfollows⟩
      rcases exists_of_mem_left hfollows.exits htext with ⟨gate, hgate, htarget⟩
      exact ⟨_, World.nameOf?_eq_area_iff.mpr ⟨_, rfl, htarget.target⟩,
        .exit hplayer hentry hreached hgate ((htarget.requirement.holds_iff hagrees).mpr htrue)⟩
  | event hraw hreached htext htrue =>
      rcases exists_area_of_reached hdepicts hmatches hraw hreached with
        ⟨entry, hentry, hreached, hfollows⟩
      rcases exists_of_mem_left hfollows.events htext with ⟨gate, hgate, htarget⟩
      exact ⟨_, World.nameOf?_eq_event_iff.mpr ⟨_, rfl, htarget.target⟩,
        .event hplayer hentry hreached hgate ((htarget.requirement.holds_iff hagrees).mpr htrue)⟩
  | location hraw hreached htext htrue hallowed =>
      rcases exists_area_of_reached hdepicts hmatches hraw hreached with
        ⟨entry, hentry, hreached, hfollows⟩
      rcases exists_of_mem_left hfollows.locations htext with ⟨gate, hgate, htarget⟩
      refine ⟨_, World.nameOf?_eq_location_iff.mpr ⟨_, rfl, htarget.target⟩,
        .location hplayer hentry hreached hgate
          ((htarget.requirement.holds_iff hagrees).mpr htrue) ?_⟩
      intro hforbidden
      rcases (hnumbers.forbidden _).mp hforbidden with ⟨other, hother, hsame⟩
      cases htarget.target.symm.trans hsame
      exact hallowed hother

/-- Facts are closed under the rules by number when their names are closed under those by
name. -/
theorem ruleClosed_iff
    (hstarts : ∀ name, names.IsStart declared name → ∃ area, world.areaName? area = some name)
    (hevents : ∀ name ∈ names.events, ∃ event, world.eventName? event = some name)
    (hmatches : world.Matches facts reached) :
    pathfinder.RuleClosed names.start? options facts ↔
      names.RuleClosed settings declared count reached := by
  constructor
  · intro hclosed name henabled
    rcases exists_enabled_of_named hdepicts hcoherent hnumbers hstarts hevents hmatches henabled
      with ⟨fact, hname, henabled⟩
    exact (hmatches hname).mp (hclosed fact henabled)
  · intro hclosed fact henabled
    rcases exists_named_of_enabled hdepicts hcoherent hnumbers hmatches henabled with
      ⟨name, hname, henabled⟩
    exact (hmatches hname).mpr (hclosed name henabled)

/-- The names of a least set of facts that has some others are the least set of names that has
theirs. -/
theorem isLeast_named
    (hstarts : ∀ name, names.IsStart declared name → ∃ area, world.areaName? area = some name)
    (hevents : ∀ name ∈ names.events, ∃ event, world.eventName? event = some name)
    {before : Set Fact}
    (hleast : IsLeast {facts | before ⊆ facts ∧
      pathfinder.RuleClosed names.start? options facts} facts) :
    IsLeast {reached | world.named before ⊆ reached ∧
      names.RuleClosed settings declared count reached} (world.named facts) := by
  constructor
  · refine ⟨?_, (ruleClosed_iff hdepicts hcoherent hnumbers hstarts hevents
      (World.matches_named hcoherent facts)).mp hleast.1.2⟩
    rintro name ⟨fact, hfact, hname⟩
    exact ⟨fact, hleast.1.1 hfact, hname⟩
  · rintro reached ⟨hbefore, hclosed⟩
    -- A fact without a name is in none of the sets that are compared.
    have hmatches : world.Matches
        {fact | ∀ name, world.nameOf? fact = some name → name ∈ reached} reached := by
      intro fact name hname
      refine ⟨fun hall => hall name hname, fun hmem other hother => ?_⟩
      cases hname.symm.trans hother
      exact hmem
    have hearlier : before ⊆ {fact | ∀ name, world.nameOf? fact = some name → name ∈ reached} :=
      fun fact hfact name hname => hbefore ⟨fact, hfact, hname⟩
    have hrules := (ruleClosed_iff hdepicts hcoherent hnumbers hstarts hevents hmatches).mpr hclosed
    rintro name ⟨fact, hfact, hname⟩
    exact (hmatches hname).mp (hleast.2 ⟨hearlier, hrules⟩ hfact)

end Rules

end NamedSearch

/-! ## Polarity -/

namespace World

variable {declared : List Declaration}

theorem positive_of_follows {language : Language} {first second : World}
    {name? other? : Nat → Option String} {full : String → String}
    {entries : List (String × String)} {gates others : List Gate}
    (hfirst : List.Forall₂ (GateFollows name? full language first.symbols) entries gates)
    (hsecond : List.Forall₂ (GateFollows other? full language second.symbols) entries others)
    (hpositive : ∀ gate ∈ gates, gate.requirement.Positive) :
    ∀ gate ∈ others, gate.requirement.Positive := by
  intro gate hgate
  rcases exists_of_mem_right hsecond hgate with ⟨entry, hentry, hfollows⟩
  rcases exists_of_mem_left hfirst hentry with ⟨other, hother, hfollows'⟩
  rcases hfollows.requirement with ⟨formula, hreads, -, hcompiled⟩
  rcases hfollows'.requirement with ⟨formula', hreads', -, hcompiled'⟩
  cases hreads.unique hreads'
  have hgate' := hpositive other hother
  rw [hcompiled'] at hgate'
  rw [hcompiled]
  exact (formula.positive_compile_iff first.symbols second.symbols).mp hgate'

/-- Worlds that depict the same entries are positive together. -/
theorem Depicts.positive {first second : World} (hfirst : first.Depicts declared)
    (hsecond : second.Depicts declared) (hpositive : first.Positive) : second.Positive := by
  intro area harea
  rcases hsecond.areas area harea with ⟨language, entry, hentry, hfollows⟩
  rcases hfirst.described hentry with ⟨other, hother, hfollows'⟩
  have hother' := hpositive other hother
  constructor
  · exact positive_of_follows hfollows'.locations hfollows.locations hother'.locations
  · exact positive_of_follows hfollows'.exits hfollows.exits hother'.exits
  · exact positive_of_follows hfollows'.events hfollows.events hother'.events
  · exact positive_of_follows hfollows'.gossips hfollows.gossips hother'.gossips

end World

end SeedLogic
