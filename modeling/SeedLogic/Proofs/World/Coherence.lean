import Mathlib.Data.List.Nodup
import SeedLogic.Proofs.Formula.Unfolding
import SeedLogic.Proofs.Requirement.Atoms
import SeedLogic.Proofs.World.Linked

/-!
# Coherence of built worlds

A world that has been built is closed under reference (`coherent_of_build`).  Besides the
targets of gates, every number in a requirement is in a table of the world, names are
distinct and looked up where they stand, and everything with a number comes from the
tables or is known to the options.  All of it is kept while tables are loaded
(`Draft.Coherent`), and linking carries it over.
-/

namespace SeedLogic

/-! ## Numbers in requirements -/

namespace Requirement

/-- The number of an atom is in its table. -/
def Atom.InRange (symbols : Symbols) : Atom → Prop
  | .item id _ => id < symbols.items.size
  | .event id => id < symbols.events.size
  | .setting id => id < symbols.settings.size
  | .quorum _ => True

/-- Every number in a requirement, at any depth, is in its table. -/
def InRange (symbols : Symbols) (requirement : Requirement) : Prop :=
  ∀ atom ∈ requirement.atoms, atom.InRange symbols

/-- More names take no number out of range. -/
theorem InRange.extend {later earlier : Symbols} (hextends : later.Extends earlier)
    {requirement : Requirement} (hrange : requirement.InRange earlier) :
    requirement.InRange later := by
  intro atom hatom
  have hearlier := hrange atom hatom
  cases atom with
  | item id count => exact Nat.lt_of_lt_of_le hearlier hextends.items.length_le
  | event id => exact Nat.lt_of_lt_of_le hearlier hextends.events.length_le
  | setting id => exact Nat.lt_of_lt_of_le hearlier hextends.settings.length_le
  | quorum count => trivial

/-- What is read is over the symbols that reading leaves. -/
theorem inRange_of_parse {game : Game} {macros : MacroTable} {symbols later : Symbols}
    {text : String} {requirement : Requirement}
    (hparse : Requirement.parse game macros symbols text = (.ok requirement, later)) :
    requirement.InRange later := by
  rcases (parse_eq_ok_iff (Grammar.describes_ofMacros game macros maxMacroDepth)).mp hparse with
    ⟨formula, -, rfl, rfl⟩
  intro atom hatom
  rcases formula.exists_term_of_mem_atoms hatom with ⟨term, hterm, rfl⟩
  cases term with
  | item name count =>
      exact List.idxOf_lt_length_of_mem (Formula.knows_of_mem_terms symbols hterm rfl)
  | event name =>
      exact List.idxOf_lt_length_of_mem (Formula.knows_of_mem_terms symbols hterm rfl)
  | setting key =>
      exact List.idxOf_lt_length_of_mem (Formula.knows_of_mem_terms symbols hterm rfl)
  | quorum count => trivial

end Requirement

/-! ## Coherent worlds -/

/-- A table declares an item: by itself, or by a check that holds it. -/
def GameTable.Declares (table : GameTable) (name : String) : Prop :=
  (∃ item ∈ table.items, name = table.game.symbolName item) ∨
    ∃ check ∈ table.pool, name = table.game.symbolName check.item

/-- Everything that can be reached from an area. -/
def Area.gates (area : Area) : List Gate :=
  area.locations ++ area.exits ++ area.events ++ area.gossips

/-- A world is closed under reference: every number that it mentions exists, every name
is looked up where it stands, and every item, event and setting is accounted for. -/
structure World.Coherent (tables : List GameTable) (options : Options) (world : World) :
    Prop where
  linked : world.Linked
  requirements : ∀ area ∈ world.areas, ∀ gate ∈ area.gates,
    gate.requirement.InRange world.symbols
  areas : (world.areas.map Area.name).Nodup
  checks : (world.checks.map Check.name).Nodup
  gossips : (world.gossips.map GossipStone.name).Nodup
  areaId? : ∀ name id, world.areaId? name = some id ↔
    ∃ area, world.areas[id]? = some area ∧ area.name = name
  checkId? : ∀ name id, world.checkId? name = some id ↔
    ∃ check, world.checks[id]? = some check ∧ check.name = name
  gossipId? : ∀ name id, world.gossipId? name = some id ↔
    ∃ gossip, world.gossips[id]? = some gossip ∧ gossip.name = name
  items : ∀ id < world.itemCount, ∃ name, world.symbols.items.keys[id]? = some name ∧
    ∃ table ∈ tables, table.Declares name
  events : ∀ id < world.eventCount, ∃ area ∈ world.areas, ∃ gate ∈ area.events,
    gate.target = id
  settings : ∀ id < world.symbols.settings.size, ∃ key,
    world.symbols.settings.keys[id]? = some key ∧ options.knows key.name = true

/-! ## Distinct names -/

section Names

variable {α : Type} {name : α → String} {entries : List α}

theorem nodup_append_singleton (hnodup : (entries.map name).Nodup) {entry : α}
    (hnew : ¬(entries.any fun other => name other == name entry) = true) :
    ((entries ++ [entry]).map name).Nodup := by
  rw [List.map_append, List.map_singleton]
  refine hnodup.append (List.nodup_singleton _) fun other hother hentry => hnew ?_
  rcases List.mem_map.mp hother with ⟨old, hold, rfl⟩
  exact List.any_eq_true.mpr ⟨old, hold, beq_iff_eq.mpr (List.mem_singleton.mp hentry)⟩

/-- Among distinct names, a name is found where it stands. -/
theorem findIdx?_eq_some_iff_of_nodup (hnodup : (entries.map name).Nodup) {wanted : String}
    {id : Nat} : (entries.findIdx? fun entry => name entry == wanted) = some id ↔
      ∃ entry, entries[id]? = some entry ∧ name entry = wanted := by
  constructor
  · intro hfind
    rcases List.findIdx?_eq_some_iff_getElem.mp hfind with ⟨hlt, hname, -⟩
    exact ⟨entries[id], List.getElem?_eq_getElem hlt, beq_iff_eq.mp hname⟩
  · rintro ⟨entry, hentry, rfl⟩
    rcases List.getElem?_eq_some_iff.mp hentry with ⟨hlt, rfl⟩
    refine List.findIdx?_eq_some_iff_getElem.mpr ⟨hlt, beq_self_eq_true _, fun earlier hless => ?_⟩
    rw [beq_iff_eq]
    intro hsame
    have hearlier : earlier < (entries.map name).length := by
      rw [List.length_map]
      exact Nat.lt_trans hless hlt
    have hplaces : (entries.map name)[earlier]? = (entries.map name)[id]? := by
      rw [List.getElem?_map, List.getElem?_map, List.getElem?_eq_getElem hlt,
        List.getElem?_eq_getElem (Nat.lt_trans hless hlt), Option.map_some, Option.map_some, hsame]
    have hindex := (List.getElem?_inj hearlier hnodup).mp hplaces
    exact absurd hless (hindex ▸ Nat.lt_irrefl _)

end Names

/-! ## Coherent drafts -/

/-- The requirements of a draft of an area. -/
def AreaDraft.requirements (area : AreaDraft) : List Requirement :=
  (area.locations ++ area.exits ++ area.gossips).map NamedGate.requirement ++
    area.events.map Gate.requirement

namespace Draft

/-- What is loaded so far is coherent. -/
structure Coherent (tables : List GameTable) (draft : Draft) : Prop where
  requirements : ∀ area ∈ draft.areas, ∀ requirement ∈ area.requirements,
    requirement.InRange draft.symbols
  areas : (draft.areas.map AreaDraft.name).Nodup
  checks : (draft.checks.map Check.name).Nodup
  gossips : (draft.gossips.map GossipStone.name).Nodup
  items : ∀ name ∈ draft.declaredItems, ∃ table ∈ tables, table.Declares name
  events : ∀ name ∈ draft.definedEvents, ∃ area ∈ draft.areas, ∃ gate ∈ area.events,
    draft.symbols.events.keys[gate.target]? = some name

theorem getElem?_of_extends {later earlier : Symbols} (hextends : later.Extends earlier)
    {id : Nat} {name : String} (hname : earlier.events.keys[id]? = some name) :
    later.events.keys[id]? = some name := by
  rcases hextends.events with ⟨added, hadded⟩
  rw [← hadded, List.getElem?_append_left (List.getElem?_eq_some_iff.mp hname).1, hname]

variable {tables : List GameTable} {draft next : Draft}

theorem coherent_empty (tables : List GameTable) : empty.Coherent tables :=
  ⟨nofun, List.nodup_nil, List.nodup_nil, List.nodup_nil, nofun, nofun⟩

/-! ### Reading requirements -/

theorem inRange_of_readRequirement {game : Game} {macros : MacroTable} {symbols later : Symbols}
    {text : String} {requirement : Requirement}
    (hread : readRequirement game macros symbols text = .ok (requirement, later)) :
    requirement.InRange later := by
  unfold readRequirement at hread
  split at hread
  case h_1 _ _ hparse =>
    cases hread
    exact Requirement.inRange_of_parse hparse
  case h_2 => cases hread

theorem inRange_of_readPlaces {game : Game} {macros : MacroTable}
    {entries : List (String × String)} {symbols later : Symbols} {gates : List NamedGate}
    (hread : readPlaces game macros symbols entries = .ok (gates, later)) :
    ∀ requirement ∈ gates.map NamedGate.requirement, requirement.InRange later := by
  induction entries generalizing symbols gates with
  | nil =>
      cases hread
      exact nofun
  | cons entry entries ih =>
      rcases Outcome.bind_eq_ok.mp hread with ⟨⟨requirement, middle⟩, hfirst, hrest⟩
      rcases Outcome.bind_eq_ok.mp hrest with ⟨⟨others, last⟩, hothers, hresult⟩
      cases hresult
      rw [List.map_cons, List.forall_mem_cons]
      exact ⟨(inRange_of_readRequirement hfirst).extend (extends_readPlaces hothers), ih hothers⟩

/-- Events have the numbers of their names. -/
theorem inRange_of_readEvents {game : Game} {macros : MacroTable}
    {entries : List (String × String)} {symbols later : Symbols} {gates : List Gate}
    (hread : readEvents game macros symbols entries = .ok (gates, later)) :
    (∀ requirement ∈ gates.map Gate.requirement, requirement.InRange later) ∧
      ∀ name ∈ entries.map (·.1), ∃ gate ∈ gates,
        later.events.keys[gate.target]? = some (game.symbolName name) := by
  induction entries generalizing symbols gates with
  | nil =>
      cases hread
      exact ⟨nofun, nofun⟩
  | cons entry entries ih =>
      rcases Outcome.bind_eq_ok.mp hread with ⟨⟨requirement, middle⟩, hfirst, hrest⟩
      rcases Outcome.bind_eq_ok.mp hrest with ⟨⟨others, last⟩, hothers, hresult⟩
      cases hresult
      rcases ih hothers with ⟨hrange, hnames⟩
      have hextends := (lt_size_of_readEvents hothers).1
      have hmention := middle.extends_mention (.event (game.symbolName entry.1))
      have hname : game.symbolName entry.1 ∈
          (middle.mention (.event (game.symbolName entry.1))).events.keys :=
        middle.knows_mention (.event (game.symbolName entry.1))
      rw [List.map_cons, List.forall_mem_cons, List.map_cons, List.forall_mem_cons]
      refine ⟨⟨(inRange_of_readRequirement hfirst).extend (hextends.trans hmention), hrange⟩,
        ⟨_, List.mem_cons_self, getElem?_of_extends hextends ?_⟩, fun name hmem => ?_⟩
      · exact NameTable.getElem?_idOf hname
      · rcases hnames name hmem with ⟨gate, hgate, htarget⟩
        exact ⟨gate, List.mem_cons_of_mem _ hgate, htarget⟩

/-! ### Loading -/

/-- Areas stay coherent when symbols are added. -/
theorem Coherent.requirements_extend (hcoherent : draft.Coherent tables) {later : Symbols}
    (hextends : later.Extends draft.symbols) :
    ∀ area ∈ draft.areas, ∀ requirement ∈ area.requirements, requirement.InRange later :=
  fun area harea requirement hmem => (hcoherent.requirements area harea requirement hmem).extend
    hextends

theorem Coherent.events_extend (hcoherent : draft.Coherent tables) {later : Symbols}
    (hextends : later.Extends draft.symbols) :
    ∀ name ∈ draft.definedEvents, ∃ area ∈ draft.areas, ∃ gate ∈ area.events,
      later.events.keys[gate.target]? = some name := by
  intro name hname
  rcases hcoherent.events name hname with ⟨area, harea, gate, hgate, htarget⟩
  exact ⟨area, harea, gate, hgate, getElem?_of_extends hextends htarget⟩

theorem Coherent.loadArea {game : Game} {macros : MacroTable} {entry : String × RawArea}
    (hcoherent : draft.Coherent tables)
    (hload : Draft.loadArea game macros draft entry = .ok next) : next.Coherent tables := by
  simp only [Draft.loadArea] at hload
  split at hload
  case isTrue => cases hload
  case isFalse hfresh =>
    rcases Outcome.bind_eq_ok.mp hload with ⟨⟨locations, symbols₁⟩, hlocations, hload⟩
    rcases Outcome.bind_eq_ok.mp hload with ⟨⟨exits, symbols₂⟩, hexits, hload⟩
    rcases Outcome.bind_eq_ok.mp hload with ⟨⟨events, symbols₃⟩, hevents, hload⟩
    rcases Outcome.bind_eq_ok.mp hload with ⟨⟨gossips, symbols₄⟩, hgossips, hload⟩
    cases hload
    rcases inRange_of_readEvents hevents with ⟨hrange, hnames⟩
    have hlast := extends_readPlaces hgossips
    have hthird := hlast.trans (lt_size_of_readEvents hevents).1
    have hsecond := hthird.trans (extends_readPlaces hexits)
    have hfirst := hsecond.trans (extends_readPlaces hlocations)
    constructor
    · refine List.forall_mem_append.mpr ⟨hcoherent.requirements_extend hfirst, ?_⟩
      rw [List.forall_mem_singleton]
      simp only [AreaDraft.requirements, List.map_append, List.forall_mem_append]
      refine ⟨⟨⟨?_, ?_⟩, inRange_of_readPlaces hgossips⟩, ?_⟩
      · exact fun requirement hmem => (inRange_of_readPlaces hlocations requirement hmem).extend
          hsecond
      · exact fun requirement hmem => (inRange_of_readPlaces hexits requirement hmem).extend hthird
      · exact fun requirement hmem => (hrange requirement hmem).extend hlast
    · exact nodup_append_singleton hcoherent.areas hfresh
    · exact hcoherent.checks
    · exact hcoherent.gossips
    · exact hcoherent.items
    · refine List.forall_mem_append.mpr ⟨fun name hname => ?_, fun name hname => ?_⟩
      · rcases hcoherent.events_extend hfirst name hname with ⟨area, harea, hgate⟩
        exact ⟨area, List.mem_append_left _ harea, hgate⟩
      · rcases List.mem_map.mp hname with ⟨raw, hraw, rfl⟩
        rcases hnames raw hraw with ⟨gate, hgate, htarget⟩
        exact ⟨_, List.mem_append_right _ List.mem_cons_self, gate, hgate,
          getElem?_of_extends hlast htarget⟩

theorem Coherent.declareItem (hcoherent : draft.Coherent tables) {name : String}
    (hdeclared : ∃ table ∈ tables, table.Declares name) :
    (draft.declareItem name).Coherent tables := by
  have hextends := draft.symbols.extends_mention (.item name)
  constructor
  · exact hcoherent.requirements_extend hextends
  · exact hcoherent.areas
  · exact hcoherent.checks
  · exact hcoherent.gossips
  · exact List.forall_mem_append.mpr ⟨hcoherent.items, List.forall_mem_singleton.mpr hdeclared⟩
  · exact hcoherent.events_extend hextends

theorem Coherent.loadCheck {constraint : String → Constraint} {table : GameTable}
    (htable : table ∈ tables) {check : RawCheck} (hcheck : check ∈ table.pool)
    (hcoherent : draft.Coherent tables)
    (hload : Draft.loadCheck table.game constraint draft check = .ok next) :
    next.Coherent tables := by
  rcases loadCheck_eq_ok_iff.mp hload with ⟨hfresh, kind, -, rfl⟩
  have hdeclared := hcoherent.declareItem ⟨table, htable, .inr ⟨check, hcheck, rfl⟩⟩
  exact ⟨hdeclared.requirements, hdeclared.areas, nodup_append_singleton hdeclared.checks hfresh,
    hdeclared.gossips, hdeclared.items, hdeclared.events⟩

theorem Coherent.loadGossip {game : Game} {entry : String × GossipKind}
    (hcoherent : draft.Coherent tables)
    (hload : Draft.loadGossip game draft entry = .ok next) : next.Coherent tables := by
  rcases loadGossip_eq_ok_iff.mp hload with ⟨hfresh, rfl⟩
  exact ⟨hcoherent.requirements, hcoherent.areas, hcoherent.checks,
    nodup_append_singleton hcoherent.gossips hfresh, hcoherent.items, hcoherent.events⟩

theorem Coherent.load {constraint : String → Constraint} {table : GameTable}
    (htable : table ∈ tables) (hcoherent : draft.Coherent tables)
    (hload : draft.load constraint table = .ok next) : next.Coherent tables := by
  simp only [Draft.load] at hload
  rcases Outcome.bind_eq_ok.mp hload with ⟨macros, -, hload⟩
  rcases Outcome.bind_eq_ok.mp hload with ⟨withAreas, hareas, hload⟩
  rcases Outcome.bind_eq_ok.mp hload with ⟨withChecks, hchecks, hload⟩
  rcases Outcome.bind_eq_ok.mp hload with ⟨withGossips, hgossips, hload⟩
  cases hload
  have hloaded := Outcome.foldlM_preserves Coherent.loadArea hcoherent hareas
  have hdeclared : ((table.items.map table.game.symbolName).foldl Draft.declareItem
      withAreas).Coherent tables := by
    refine List.foldlRecOn _ _ hloaded fun _ hdraft name hname => hdraft.declareItem ?_
    rcases List.mem_map.mp hname with ⟨item, hitem, rfl⟩
    exact ⟨table, htable, .inl ⟨item, hitem, rfl⟩⟩
  have hchecked := Outcome.foldlM_preserves_of_mem
    (fun hcheck => Coherent.loadCheck htable hcheck) hdeclared hchecks
  have hgossiped := Outcome.foldlM_preserves Coherent.loadGossip hchecked hgossips
  exact ⟨hgossiped.requirements, hgossiped.areas, hgossiped.checks, hgossiped.gossips,
    hgossiped.items, hgossiped.events⟩

theorem Coherent.loadAll {constraint : String → Constraint} {loaded : List GameTable}
    (hloaded : ∀ table ∈ loaded, table ∈ tables) (hcoherent : draft.Coherent tables)
    (hload : (Draft.loadAll constraint draft loaded).result = .ok next) :
    next.Coherent tables := by
  induction loaded generalizing draft with
  | nil =>
      cases hload
      exact hcoherent
  | cons table loaded ih =>
      simp only [Draft.loadAll, Recorded.result_bind, Recorded.result_lift,
        Recorded.result_note] at hload
      rcases Outcome.bind_eq_ok.mp hload with ⟨middle, hmiddle, hrest⟩
      rcases Outcome.bind_eq_ok.mp hrest with ⟨-, -, hrest⟩
      rw [List.forall_mem_cons] at hloaded
      exact ih hloaded.2 (hcoherent.load hloaded.1 hmiddle) hrest

/-! ### Linking -/

theorem requirement_linkLocation {area : String} {named : NamedGate} {gate : Gate}
    (hlink : draft.linkLocation area named = .ok gate) :
    gate.requirement = named.requirement := by
  unfold linkLocation at hlink
  split at hlink
  case h_1 =>
    cases hlink
    rfl
  case h_2 => cases hlink

theorem requirement_linkExit {area : String} {named : NamedGate} {gate : Gate}
    (hlink : draft.linkExit area named = .ok gate) : gate.requirement = named.requirement := by
  rcases Outcome.bind_eq_ok.mp hlink with ⟨id, -, hgate⟩
  cases hgate
  rfl

theorem requirement_linkGossip {named : NamedGate} {gate : Gate}
    (hlink : draft.linkGossip named = .ok gate) : gate.requirement = named.requirement := by
  unfold linkGossip at hlink
  split at hlink
  case h_1 =>
    cases hlink
    rfl
  case h_2 => cases hlink

/-- Linked gates have the requirements of the places that they were linked from. -/
theorem requirement_mem_of_mapM {link : NamedGate → Except LogicError Gate}
    (hkeeps : ∀ {named gate}, link named = .ok gate → gate.requirement = named.requirement)
    {places : List NamedGate} {gates : List Gate} (hlinks : places.mapM link = .ok gates)
    {gate : Gate} (hgate : gate ∈ gates) :
    ∃ named ∈ places, named.requirement = gate.requirement := by
  rcases Outcome.exists_of_mem_mapM hlinks hgate with ⟨named, hnamed, hlinked⟩
  exact ⟨named, hnamed, (hkeeps hlinked).symm⟩

/-- An area keeps its name, its events and its requirements when it is linked. -/
theorem eq_of_linkArea {source : AreaDraft} {area : Area}
    (hlink : draft.linkArea source = .ok area) :
    area.name = source.name ∧ area.events = source.events ∧
      ∀ gate ∈ area.gates, gate.requirement ∈ source.requirements := by
  rcases linkArea_eq_ok_iff.mp hlink with
    ⟨locations, exits, gossips, hlocations, hexits, hgossips, rfl⟩
  refine ⟨rfl, rfl, fun gate hgate => ?_⟩
  simp only [Area.gates, List.mem_append] at hgate
  simp only [AreaDraft.requirements, List.mem_append, List.mem_map]
  rcases hgate with ((hgate | hgate) | hgate) | hgate
  · rcases requirement_mem_of_mapM requirement_linkLocation hlocations hgate with
      ⟨named, hnamed, hsame⟩
    exact .inl ⟨named, .inl (.inl hnamed), hsame⟩
  · rcases requirement_mem_of_mapM requirement_linkExit hexits hgate with ⟨named, hnamed, hsame⟩
    exact .inl ⟨named, .inl (.inr hnamed), hsame⟩
  · exact .inr ⟨gate, hgate, rfl⟩
  · rcases requirement_mem_of_mapM requirement_linkGossip hgossips hgate with
      ⟨named, hnamed, hsame⟩
    exact .inl ⟨named, .inr hnamed, hsame⟩

theorem names_tagCheck (dungeon : String) (checks : List Check) (gate : Gate) :
    (tagCheck dungeon checks gate).map Check.name = checks.map Check.name := by
  apply List.ext_getElem?
  intro id
  rw [tagCheck, List.getElem?_map, List.getElem?_map, List.getElem?_modify]
  split <;> cases checks[id]? <;> rfl

/-- Dungeons do not change the names of checks. -/
theorem names_foldl_tagChecks (areas : List Area) (checks : List Check) :
    (areas.foldl tagChecks checks).map Check.name = checks.map Check.name := by
  have htag : ∀ (dungeon : String) (gates : List Gate) (checks : List Check),
      (gates.foldl (tagCheck dungeon) checks).map Check.name = checks.map Check.name := by
    intro dungeon gates
    induction gates with
    | nil => exact fun _ => rfl
    | cons gate gates ih => exact fun checks => (ih _).trans (names_tagCheck dungeon checks gate)
  induction areas generalizing checks with
  | nil => rfl
  | cons area areas ih =>
      rw [List.foldl_cons, ih, tagChecks]
      split
      · exact htag _ _ _
      · rfl

/-- Symbols are checked when all of them are accounted for. -/
theorem checkSymbols_eq_ok_iff {options : Options} :
    draft.checkSymbols options = .ok () ↔
      (∀ name ∈ draft.symbols.items.keys, name ∈ draft.declaredItems) ∧
      (∀ name ∈ draft.symbols.events.keys, name ∈ draft.definedEvents) ∧
      ∀ key ∈ draft.symbols.settings.keys, options.knows key.name = true := by
  have hitems : draft.symbols.items.keys.find? (fun name => !draft.declaredItems.contains name) =
      none ↔ ∀ name ∈ draft.symbols.items.keys, name ∈ draft.declaredItems := by
    simp
  have hevents : draft.symbols.events.keys.find?
      (fun name => !draft.definedEvents.contains name) = none ↔
        ∀ name ∈ draft.symbols.events.keys, name ∈ draft.definedEvents := by
    simp
  have hsettings : draft.symbols.settings.keys.find? (fun key => !options.knows key.name) =
      none ↔ ∀ key ∈ draft.symbols.settings.keys, options.knows key.name = true := by
    simp
  rw [← hitems, ← hevents, ← hsettings, checkSymbols]
  cases draft.symbols.items.keys.find? fun name => !draft.declaredItems.contains name with
  | some name => simp
  | none =>
      cases draft.symbols.events.keys.find? fun name => !draft.definedEvents.contains name with
      | some name => simp
      | none =>
          cases draft.symbols.settings.keys.find? fun key => !options.knows key.name <;> simp

theorem names_of_linkAreas {areas : List Area} {sources : List AreaDraft}
    (hareas : sources.mapM draft.linkArea = .ok areas) :
    areas.map Area.name = sources.map AreaDraft.name := by
  have hall := Outcome.mapM_eq_ok.mp hareas
  clear hareas
  induction hall with
  | nil => rfl
  | cons hfirst _ ih => rw [List.map_cons, List.map_cons, ih, (eq_of_linkArea hfirst).1]

/-- The world that is linked from a coherent draft is coherent. -/
theorem Coherent.link (hcoherent : draft.Coherent tables) {options : Options} {world : World}
    (hlinked : world.Linked) (hlink : draft.link options = .ok world) :
    world.Coherent tables options := by
  rcases link_eq_ok_iff.mp hlink with ⟨areas, starts, hareas, -, hsymbols, rfl⟩
  rcases checkSymbols_eq_ok_iff.mp hsymbols with ⟨hitems, hevents, hsettings⟩
  have hareaNames : (areas.map Area.name).Nodup := names_of_linkAreas hareas ▸ hcoherent.areas
  have hcheckNames : ((areas.foldl tagChecks draft.checks).map Check.name).Nodup :=
    names_foldl_tagChecks areas draft.checks ▸ hcoherent.checks
  constructor
  · exact hlinked
  · intro area harea gate hgate
    rcases Outcome.exists_of_mem_mapM hareas harea with ⟨source, hsource, hlink⟩
    exact hcoherent.requirements source hsource _ ((eq_of_linkArea hlink).2.2 gate hgate)
  · exact hareaNames
  · exact hcheckNames
  · exact hcoherent.gossips
  · exact fun name id => findIdx?_eq_some_iff_of_nodup hareaNames
  · exact fun name id => findIdx?_eq_some_iff_of_nodup hcheckNames
  · exact fun name id => findIdx?_eq_some_iff_of_nodup hcoherent.gossips
  · intro id hid
    have hmem := List.getElem_mem hid
    exact ⟨_, List.getElem?_eq_getElem hid, hcoherent.items _ (hitems _ hmem)⟩
  · intro id hid
    have hmem := List.getElem_mem hid
    rcases hcoherent.events _ (hevents _ hmem) with ⟨source, hsource, gate, hgate, htarget⟩
    rcases List.mem_iff_getElem?.mp hsource with ⟨place, hplace⟩
    rcases Outcome.getElem?_mapM hareas hplace with ⟨area, harea, hlink⟩
    refine ⟨area, List.mem_of_getElem? harea, gate, (eq_of_linkArea hlink).2.1 ▸ hgate, ?_⟩
    -- The name of the event has one number, that of its gate.
    have hlt := (List.getElem?_eq_some_iff.mp htarget).1
    exact (List.getElem?_inj hlt draft.symbols.events.nodup).mp
      (htarget.trans (List.getElem?_eq_getElem hid).symm)
  · intro id hid
    exact ⟨_, List.getElem?_eq_getElem hid, hsettings _ (List.getElem_mem hid)⟩

end Draft

/-- A world that has been built is coherent. -/
theorem World.coherent_of_build {tables : List GameTable} {options : Options}
    {constraint : String → Constraint} {world : World}
    (hbuild : (World.build tables options constraint).result = .ok world) :
    world.Coherent tables options := by
  have hlinked : world.Linked := World.Built.linked ⟨tables, options, constraint, hbuild⟩
  rcases World.build_eq_ok_iff.mp hbuild with ⟨draft, hload, hlink⟩
  exact ((Draft.coherent_empty tables).loadAll (fun _ => id) hload).link hlinked hlink

end SeedLogic
