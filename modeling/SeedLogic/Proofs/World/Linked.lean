import SeedLogic.Proofs.Outcome
import SeedLogic.World.Build

/-!
# Links of built worlds

A gate of a world leads to a number.  In a world that has been built every such
number is that of an area, a check, an event or a hint stone of the world
(`Built.linked`): names of places are looked up in the finished draft, and events
are numbered when they are met, after which no number is taken back.
-/

namespace SeedLogic

namespace World

/-- The world was built from tables. -/
def Built (world : World) : Prop :=
  ∃ tables options constraint, (build tables options constraint).result = .ok world

/-- Every number that a gate or a start refers to exists. -/
structure Linked (world : World) : Prop where
  locations : ∀ area ∈ world.areas, ∀ gate ∈ area.locations, gate.target < world.checks.length
  exits : ∀ area ∈ world.areas, ∀ gate ∈ area.exits, gate.target < world.areas.length
  events : ∀ area ∈ world.areas, ∀ gate ∈ area.events, gate.target < world.eventCount
  gossips : ∀ area ∈ world.areas, ∀ gate ∈ area.gossips, gate.target < world.gossips.length
  starts : ∀ area ∈ world.starts, area < world.areas.length

end World

namespace Draft

/-! ## What loading does -/

/-- A check is loaded when its name is new and its identification suits its type. -/
theorem loadCheck_eq_ok_iff {game : Game} {constraint : String → Constraint}
    {draft next : Draft} {check : RawCheck} :
    loadCheck game constraint draft check = .ok next ↔
      (¬draft.checks.any fun other => other.name == game.placeName check.location) ∧
        ∃ kind, checkKind (game.placeName check.location) check = .ok kind ∧
          next = { draft.declareItem (game.symbolName check.item) with
            checks := draft.checks ++
              [⟨game.placeName check.location, game, game.symbolName check.scene,
                game.symbolName check.item, kind, constraint (game.symbolName check.item),
                none⟩] } := by
  simp only [loadCheck]
  split
  case isTrue hold => simp [hold]
  case isFalse hnew =>
    simp only [Outcome.bind_eq_ok, Except.ok.injEq]
    constructor
    · rintro ⟨kind, hkind, rfl⟩
      exact ⟨hnew, kind, hkind, rfl⟩
    · rintro ⟨-, kind, hkind, rfl⟩
      exact ⟨kind, hkind, rfl⟩

/-- A hint stone is loaded when its name is new. -/
theorem loadGossip_eq_ok_iff {game : Game} {draft next : Draft} {entry : String × GossipKind} :
    loadGossip game draft entry = .ok next ↔
      (¬draft.gossips.any fun other => other.name == game.placeName entry.1) ∧
        next = { draft with
          gossips := draft.gossips ++ [⟨game.placeName entry.1, game, entry.2⟩] } := by
  simp only [loadGossip]
  split
  case isTrue hold => simp [hold]
  case isFalse hnew => simp [hnew, eq_comm]

/-! ## Events are numbered -/

/-- Every event of an area has a number. -/
def EventsNumbered (draft : Draft) : Prop :=
  ∀ area ∈ draft.areas, ∀ gate ∈ area.events, gate.target < draft.symbols.events.size

theorem size_events_le {later earlier : Symbols} (hextends : later.Extends earlier) :
    earlier.events.size ≤ later.events.size :=
  hextends.events.length_le

/-- Areas stay as they are when symbols are added. -/
theorem EventsNumbered.extend {draft later : Draft} (hnumbered : draft.EventsNumbered)
    (hareas : later.areas = draft.areas) (hsymbols : later.symbols.Extends draft.symbols) :
    later.EventsNumbered := by
  intro area harea gate hgate
  rw [hareas] at harea
  exact Nat.lt_of_lt_of_le (hnumbered area harea gate hgate) (size_events_le hsymbols)

theorem extends_readRequirement {game : Game} {macros : MacroTable} {symbols : Symbols}
    {text : String} {requirement : Requirement} {later : Symbols}
    (hread : readRequirement game macros symbols text = .ok (requirement, later)) :
    later.Extends symbols := by
  have hsymbols : (Requirement.parse game macros symbols text).2.Extends symbols :=
    symbols.extends_mentionAll _
  unfold readRequirement at hread
  split at hread
  case h_1 requirement' symbols' hparse =>
    cases hread
    rw [hparse] at hsymbols
    exact hsymbols
  case h_2 => cases hread

theorem extends_readPlaces {game : Game} {macros : MacroTable} {entries : List (String × String)}
    {symbols later : Symbols} {gates : List NamedGate}
    (hread : readPlaces game macros symbols entries = .ok (gates, later)) :
    later.Extends symbols := by
  induction entries generalizing symbols gates with
  | nil =>
      cases hread
      exact .refl _
  | cons entry entries ih =>
      rcases Outcome.bind_eq_ok.mp hread with ⟨⟨requirement, middle⟩, hfirst, hrest⟩
      rcases Outcome.bind_eq_ok.mp hrest with ⟨⟨others, last⟩, hothers, hresult⟩
      cases hresult
      exact (ih hothers).trans (extends_readRequirement hfirst)

/-- An event is numbered when its requirement has been read. -/
theorem lt_size_of_readEvents {game : Game} {macros : MacroTable}
    {entries : List (String × String)} {symbols later : Symbols} {gates : List Gate}
    (hread : readEvents game macros symbols entries = .ok (gates, later)) :
    later.Extends symbols ∧ ∀ gate ∈ gates, gate.target < later.events.size := by
  induction entries generalizing symbols gates with
  | nil =>
      cases hread
      exact ⟨.refl _, by simp⟩
  | cons entry entries ih =>
      rcases Outcome.bind_eq_ok.mp hread with ⟨⟨requirement, middle⟩, hfirst, hrest⟩
      rcases Outcome.bind_eq_ok.mp hrest with ⟨⟨others, last⟩, hothers, hresult⟩
      cases hresult
      rcases ih hothers with ⟨hextends, htargets⟩
      have hmention := middle.extends_mention (.event (game.symbolName entry.1))
      have hname : game.symbolName entry.1 ∈
          (middle.mention (.event (game.symbolName entry.1))).events.keys :=
        middle.knows_mention (.event (game.symbolName entry.1))
      refine ⟨(hextends.trans hmention).trans (extends_readRequirement hfirst), ?_⟩
      intro gate hgate
      rcases List.mem_cons.mp hgate with rfl | hgate
      · exact Nat.lt_of_lt_of_le (List.idxOf_lt_length_of_mem hname) (size_events_le hextends)
      · exact htargets gate hgate

theorem EventsNumbered.loadArea {game : Game} {macros : MacroTable} {draft next : Draft}
    {entry : String × RawArea} (hnumbered : draft.EventsNumbered)
    (hload : loadArea game macros draft entry = .ok next) : next.EventsNumbered := by
  simp only [Draft.loadArea] at hload
  split at hload
  · cases hload
  · rcases Outcome.bind_eq_ok.mp hload with ⟨⟨locations, symbols₁⟩, hlocations, hload⟩
    rcases Outcome.bind_eq_ok.mp hload with ⟨⟨exits, symbols₂⟩, hexits, hload⟩
    rcases Outcome.bind_eq_ok.mp hload with ⟨⟨events, symbols₃⟩, hevents, hload⟩
    rcases Outcome.bind_eq_ok.mp hload with ⟨⟨gossips, symbols₄⟩, hgossips, hload⟩
    cases hload
    rcases lt_size_of_readEvents hevents with ⟨hextends, htargets⟩
    have hlate := extends_readPlaces hgossips
    have hold := hlate.trans (hextends.trans
      ((extends_readPlaces hexits).trans (extends_readPlaces hlocations)))
    intro area harea gate hgate
    rcases List.mem_append.mp harea with harea | harea
    · exact Nat.lt_of_lt_of_le (hnumbered area harea gate hgate) (size_events_le hold)
    · rw [List.mem_singleton] at harea
      subst harea
      exact Nat.lt_of_lt_of_le (htargets gate hgate) (size_events_le hlate)

theorem EventsNumbered.declareItem {draft : Draft} (hnumbered : draft.EventsNumbered)
    (name : String) : (draft.declareItem name).EventsNumbered :=
  hnumbered.extend rfl (draft.symbols.extends_mention (.item name))

theorem EventsNumbered.loadCheck {game : Game} {constraint : String → Constraint}
    {draft next : Draft} {check : RawCheck} (hnumbered : draft.EventsNumbered)
    (hload : loadCheck game constraint draft check = .ok next) : next.EventsNumbered := by
  rcases loadCheck_eq_ok_iff.mp hload with ⟨-, kind, -, rfl⟩
  exact hnumbered.declareItem (game.symbolName check.item)

theorem EventsNumbered.loadGossip {game : Game} {draft next : Draft} {entry : String × GossipKind}
    (hnumbered : draft.EventsNumbered) (hload : loadGossip game draft entry = .ok next) :
    next.EventsNumbered := by
  rcases loadGossip_eq_ok_iff.mp hload with ⟨-, rfl⟩
  exact hnumbered

theorem EventsNumbered.load {constraint : String → Constraint} {draft next : Draft}
    {table : GameTable} (hnumbered : draft.EventsNumbered)
    (hload : draft.load constraint table = .ok next) : next.EventsNumbered := by
  simp only [Draft.load] at hload
  rcases Outcome.bind_eq_ok.mp hload with ⟨macros, -, hload⟩
  rcases Outcome.bind_eq_ok.mp hload with ⟨withAreas, hareas, hload⟩
  rcases Outcome.bind_eq_ok.mp hload with ⟨withChecks, hchecks, hload⟩
  rcases Outcome.bind_eq_ok.mp hload with ⟨withGossips, hgossips, hload⟩
  cases hload
  have hloaded : withAreas.EventsNumbered :=
    Outcome.foldlM_preserves EventsNumbered.loadArea hnumbered hareas
  have hdeclared : ((table.items.map table.game.symbolName).foldl Draft.declareItem
      withAreas).EventsNumbered :=
    List.foldlRecOn _ _ hloaded fun _ hdraft name _ => hdraft.declareItem name
  have hchecked := Outcome.foldlM_preserves EventsNumbered.loadCheck hdeclared hchecks
  have hgossiped := Outcome.foldlM_preserves EventsNumbered.loadGossip hchecked hgossips
  exact hgossiped.extend rfl (.refl _)

theorem EventsNumbered.loadAll {constraint : String → Constraint} {tables : List GameTable}
    {draft last : Draft} (hnumbered : draft.EventsNumbered)
    (hload : (loadAll constraint draft tables).result = .ok last) : last.EventsNumbered := by
  induction tables generalizing draft with
  | nil =>
      cases hload
      exact hnumbered
  | cons table tables ih =>
      simp only [Draft.loadAll, Recorded.result_bind, Recorded.result_lift,
        Recorded.result_note] at hload
      rcases Outcome.bind_eq_ok.mp hload with ⟨next, hnext, hrest⟩
      rcases Outcome.bind_eq_ok.mp hrest with ⟨-, -, hrest⟩
      exact ih (hnumbered.load hnext) hrest

/-! ## What linking does -/

/-- An area is linked when all places that it leads to are. -/
theorem linkArea_eq_ok_iff {draft : Draft} {source : AreaDraft} {area : Area} :
    draft.linkArea source = .ok area ↔
      ∃ locations exits gossips,
        source.locations.mapM (draft.linkLocation source.name) = .ok locations ∧
        source.exits.mapM (draft.linkExit source.name) = .ok exits ∧
        source.gossips.mapM draft.linkGossip = .ok gossips ∧
        area = ⟨source.name, source.game, source.dungeon?, locations, exits, source.events,
          gossips⟩ := by
  simp only [linkArea, Outcome.bind_eq_ok, Except.ok.injEq, exists_and_left]
  constructor
  · rintro ⟨locations, hlocations, exits, hexits, gossips, hgossips, rfl⟩
    exact ⟨locations, hlocations, exits, hexits, gossips, hgossips, rfl⟩
  · rintro ⟨locations, hlocations, exits, hexits, gossips, hgossips, rfl⟩
    exact ⟨locations, hlocations, exits, hexits, gossips, hgossips, rfl⟩

/-- A draft is linked when its areas and starts are, and its symbols are in order. -/
theorem link_eq_ok_iff {draft : Draft} {options : Options} {world : World} :
    draft.link options = .ok world ↔
      ∃ areas starts, draft.areas.mapM draft.linkArea = .ok areas ∧
        draft.starts.mapM (draft.areaId .tableStart) = .ok starts ∧
        draft.checkSymbols options = .ok () ∧
        world =
          { areas
            checks := areas.foldl tagChecks draft.checks
            gossips := draft.gossips
            dungeons := areas.foldl indexChecks .empty
            starts
            symbols := draft.symbols } := by
  simp only [link, Outcome.bind_eq_ok, Except.ok.injEq, exists_and_left]
  constructor
  · rintro ⟨areas, hareas, starts, hstarts, ⟨⟩, hsymbols, rfl⟩
    exact ⟨areas, hareas, starts, hstarts, hsymbols, rfl⟩
  · rintro ⟨areas, hareas, starts, hstarts, hsymbols, rfl⟩
    exact ⟨areas, hareas, starts, hstarts, (), hsymbols, rfl⟩

/-! ## Places are looked up -/

theorem lt_length_of_findIdx? {α : Type} {test : α → Bool} {entries : List α} {id : Nat}
    (hfind : entries.findIdx? test = some id) : id < entries.length :=
  (List.findIdx?_eq_some_iff_getElem.mp hfind).1

theorem lt_of_areaId {draft : Draft} {reference : AreaReference} {name : String} {id : AreaId}
    (hid : draft.areaId reference name = .ok id) : id < draft.areas.length := by
  unfold areaId at hid
  split at hid
  case h_1 found hfound =>
    cases hid
    exact lt_length_of_findIdx? hfound
  case h_2 => cases hid

theorem lt_of_linkLocation {draft : Draft} {area : String} {named : NamedGate} {gate : Gate}
    (hlink : draft.linkLocation area named = .ok gate) : gate.target < draft.checks.length := by
  unfold linkLocation at hlink
  split at hlink
  case h_1 found hfound =>
    cases hlink
    exact lt_length_of_findIdx? hfound
  case h_2 => cases hlink

theorem lt_of_linkGossip {draft : Draft} {named : NamedGate} {gate : Gate}
    (hlink : draft.linkGossip named = .ok gate) : gate.target < draft.gossips.length := by
  unfold linkGossip at hlink
  split at hlink
  case h_1 found hfound =>
    cases hlink
    exact lt_length_of_findIdx? hfound
  case h_2 => cases hlink

theorem lt_of_linkExit {draft : Draft} {area : String} {named : NamedGate} {gate : Gate}
    (hlink : draft.linkExit area named = .ok gate) : gate.target < draft.areas.length := by
  rcases Outcome.bind_eq_ok.mp hlink with ⟨id, hid, hgate⟩
  cases hgate
  exact lt_of_areaId hid

/-- An area whose places exist in a draft, and whose events are those of the draft. -/
structure LinksTo (draft : Draft) (area : Area) : Prop where
  locations : ∀ gate ∈ area.locations, gate.target < draft.checks.length
  exits : ∀ gate ∈ area.exits, gate.target < draft.areas.length
  gossips : ∀ gate ∈ area.gossips, gate.target < draft.gossips.length
  events : ∃ source ∈ draft.areas, area.events = source.events

theorem linksTo_of_linkArea {draft : Draft} {source : AreaDraft} (hsource : source ∈ draft.areas)
    {area : Area} (hlink : draft.linkArea source = .ok area) : draft.LinksTo area := by
  rcases linkArea_eq_ok_iff.mp hlink with
    ⟨locations, exits, gossips, hlocations, hexits, hgossips, rfl⟩
  constructor
  · intro gate hgate
    rcases Outcome.exists_of_mem_mapM hlocations hgate with ⟨named, -, hnamed⟩
    exact lt_of_linkLocation hnamed
  · intro gate hgate
    rcases Outcome.exists_of_mem_mapM hexits hgate with ⟨named, -, hnamed⟩
    exact lt_of_linkExit hnamed
  · intro gate hgate
    rcases Outcome.exists_of_mem_mapM hgossips hgate with ⟨named, -, hnamed⟩
    exact lt_of_linkGossip hnamed
  · exact ⟨source, hsource, rfl⟩

theorem length_foldl_tagCheck (dungeon : String) (gates : List Gate) (checks : List Check) :
    (gates.foldl (tagCheck dungeon) checks).length = checks.length := by
  induction gates generalizing checks with
  | nil => rfl
  | cons gate gates ih => rw [List.foldl_cons, ih, tagCheck, List.length_modify]

theorem length_tagChecks (checks : List Check) (area : Area) :
    (tagChecks checks area).length = checks.length := by
  unfold tagChecks
  split
  · exact length_foldl_tagCheck _ _ checks
  · rfl

theorem length_foldl_tagChecks (areas : List Area) (checks : List Check) :
    (areas.foldl tagChecks checks).length = checks.length := by
  induction areas generalizing checks with
  | nil => rfl
  | cons area areas ih => rw [List.foldl_cons, ih, length_tagChecks]

theorem linked_of_link {draft : Draft} (hnumbered : draft.EventsNumbered) {options : Options}
    {world : World} (hlink : draft.link options = .ok world) : world.Linked := by
  rcases link_eq_ok_iff.mp hlink with ⟨areas, starts, hareas, hstarts, -, rfl⟩
  have hlength := Outcome.length_of_mapM hareas
  have hlinks : ∀ area ∈ areas, draft.LinksTo area := by
    intro area harea
    rcases Outcome.exists_of_mem_mapM hareas harea with ⟨source, hsource, hlink⟩
    exact linksTo_of_linkArea hsource hlink
  constructor
  · intro area harea gate hgate
    rw [length_foldl_tagChecks]
    exact (hlinks area harea).locations gate hgate
  · intro area harea gate hgate
    rw [hlength]
    exact (hlinks area harea).exits gate hgate
  · intro area harea gate hgate
    rcases (hlinks area harea).events with ⟨source, hsource, hevents⟩
    exact hnumbered source hsource gate (hevents ▸ hgate)
  · intro area harea gate hgate
    exact (hlinks area harea).gossips gate hgate
  · intro start hstart
    rcases Outcome.exists_of_mem_mapM hstarts hstart with ⟨name, -, hid⟩
    rw [hlength]
    exact lt_of_areaId hid

end Draft

/-- A world is built when the tables are loaded and the draft is linked. -/
theorem World.build_eq_ok_iff {tables : List GameTable} {options : Options}
    {constraint : String → Constraint} {world : World} :
    (World.build tables options constraint).result = .ok world ↔
      ∃ draft, (Draft.loadAll constraint .empty tables).result = .ok draft ∧
        draft.link options = .ok world := by
  simp only [World.build, Recorded.result_bind, Recorded.result_lift, Recorded.result_note,
    Recorded.result_pure]
  constructor
  · intro hbuild
    rcases Outcome.bind_eq_ok.mp hbuild with ⟨draft, hload, hbuild⟩
    rcases Outcome.bind_eq_ok.mp hbuild with ⟨linked, hlink, hbuild⟩
    cases hbuild
    exact ⟨draft, hload, hlink⟩
  · rintro ⟨draft, hload, hlink⟩
    exact Outcome.bind_eq_ok.mpr ⟨draft, hload, Outcome.bind_eq_ok.mpr ⟨world, hlink, rfl⟩⟩

/-- A world that has been built refers to nothing that it does not have. -/
theorem World.Built.linked {world : World} (hbuilt : world.Built) : world.Linked := by
  rcases hbuilt with ⟨tables, options, constraint, hbuild⟩
  rcases World.build_eq_ok_iff.mp hbuild with ⟨draft, hload, hlink⟩
  have hempty : Draft.empty.EventsNumbered := fun area harea => absurd harea List.not_mem_nil
  exact Draft.linked_of_link (hempty.loadAll hload) hlink

namespace World

/-! ## A meadow and a cave

In the meadow lies a chest with a sword, by which the cave opens; what lies in the
cave takes two swords. -/

/-- The table of the meadow. -/
def meadowTable : GameTable :=
  { GameTable.bare .oot with
    start := ["Meadow"]
    areas := .ofList [
      ("Meadow",
        { RawArea.bare with
          locations := .ofList [("Chest", "true")]
          exits := .ofList [("Cave", "event(OPEN) & !setting(hard)")]
          events := .ofList [("OPEN", "SWORD")] }),
      ("Cave", { RawArea.bare with locations := .ofList [("Pool", "has(SWORD, 2)")] })]
    pool := [⟨"Chest", .numeric .chest, "FIELD", .number 0, "SWORD"⟩,
      ⟨"Pool", .numeric .chest, "FIELD", .number 1, "SWORD"⟩] }

/-- The world that is built from it. -/
def meadow : World where
  areas := [
    ⟨"OOT Cave", .oot, none, [⟨1, .hasItem 0 2⟩], [], [], []⟩,
    ⟨"OOT Meadow", .oot, none, [⟨0, .const true⟩],
      [⟨0, .and [.hasEvent 0, .not (.setting 0)]⟩], [⟨0, .hasItem 0 1⟩], []⟩]
  checks := [
    ⟨"OOT Chest", .oot, "OOT_FIELD", "OOT_SWORD", .numeric .chest 0, .anywhere, none⟩,
    ⟨"OOT Pool", .oot, "OOT_FIELD", "OOT_SWORD", .numeric .chest 1, .anywhere, none⟩]
  gossips := []
  dungeons := .empty
  starts := [1]
  symbols := ⟨⟨["OOT_SWORD"], by decide⟩, ⟨["OOT_OPEN"], by decide⟩,
    ⟨[⟨"hard", none⟩], by decide⟩⟩

theorem built_meadow : meadow.Built :=
  ⟨[meadowTable], .ofList [("hard", .flag false)], fun _ => .anywhere, rfl⟩

end World

end SeedLogic
