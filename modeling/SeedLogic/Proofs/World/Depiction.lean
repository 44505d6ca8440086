import SeedLogic.Proofs.World.Consistency

/-!
# Built worlds by name

A world that is built depicts the entries of its tables (`World.depicts_of_build`): by name,
its areas lead where the entries say, by what the texts say, and it has the checks, items,
events and start areas of the entries and no others.  What is said of the world that way has
nothing to do with its numbers, and nothing with the order of the entries (`Depicts.perm`).
-/

namespace SeedLogic

/-! ## Lists side by side -/

section Forall₂

variable {α β : Type} {Related : α → β → Prop} {left : List α} {right : List β}

theorem exists_of_mem_left (hall : List.Forall₂ Related left right) {first : α}
    (hfirst : first ∈ left) : ∃ second ∈ right, Related first second := by
  induction hall with
  | nil => cases hfirst
  | cons hhead _ ih =>
      rcases List.mem_cons.mp hfirst with rfl | hfirst
      · exact ⟨_, List.mem_cons_self, hhead⟩
      · rcases ih hfirst with ⟨second, hsecond, hrelated⟩
        exact ⟨second, List.mem_cons_of_mem _ hsecond, hrelated⟩

theorem exists_of_mem_right (hall : List.Forall₂ Related left right) {second : β}
    (hsecond : second ∈ right) : ∃ first ∈ left, Related first second :=
  exists_of_mem_left hall.flip hsecond

end Forall₂

/-! ## Worlds and entries -/

namespace World

/-- The name of an area. -/
def areaName? (world : World) (id : AreaId) : Option String :=
  (world.areas.map Area.name)[id]?

/-- The name of a check. -/
def checkName? (world : World) (id : CheckId) : Option String :=
  (world.checks.map Check.name)[id]?

/-- The name of a hint stone. -/
def gossipName? (world : World) (id : GossipId) : Option String :=
  (world.gossips.map GossipStone.name)[id]?

/-- The name of an item. -/
def itemName? (world : World) (id : ItemId) : Option String :=
  world.symbols.items.keys[id]?

/-- The name of an event. -/
def eventName? (world : World) (id : EventId) : Option String :=
  world.symbols.events.keys[id]?

/-- A gate leads to the name of an entry, by what the text of the entry says. -/
structure GateFollows (name? : Nat → Option String) (full : String → String)
    (language : Language) (symbols : Symbols) (entry : String × String) (gate : Gate) : Prop where
  target : name? gate.target = some (full entry.1)
  requirement : language.Renders symbols entry.2 gate.requirement

/-- An area of a world leads where an entry of a table says, by what the texts say. -/
structure Follows (world : World) (language : Language) (entry : String × RawArea)
    (area : Area) : Prop where
  name : area.name = language.game.placeName entry.1
  locations : List.Forall₂
    (GateFollows world.checkName? language.game.placeName language world.symbols)
    entry.2.locations.entries area.locations
  exits : List.Forall₂
    (GateFollows world.areaName? language.game.placeName language world.symbols)
    entry.2.exits.entries area.exits
  events : List.Forall₂
    (GateFollows world.eventName? language.game.symbolName language world.symbols)
    entry.2.events.entries area.events
  gossips : List.Forall₂
    (GateFollows world.gossipName? language.game.placeName language world.symbols)
    entry.2.gossip.entries area.gossips

/-- By name, a world is what some entries say. -/
structure Depicts (world : World) (declared : List Declaration) : Prop where
  areas : ∀ area ∈ world.areas, ∃ language entry, .area language entry ∈ declared ∧
    world.Follows language entry area
  described : ∀ {language entry}, .area language entry ∈ declared →
    ∃ area ∈ world.areas, world.Follows language entry area
  checks : ∀ name, name ∈ world.checks.map Check.name ↔
    ∃ declaration ∈ declared, declaration.site? = some (.check name)
  items : ∀ name, name ∈ world.symbols.items.keys ↔
    ∃ declaration ∈ declared, .item name ∈ declaration.provides
  events : ∀ name, name ∈ world.symbols.events.keys ↔
    ∃ declaration ∈ declared, .event name ∈ declaration.provides
  starts : ∀ name, .start name ∈ declared ↔
    ∃ id ∈ world.starts, world.areaName? id = some name

variable {world : World} {declared : List Declaration}

/-- The order of the entries does not matter. -/
theorem Depicts.perm {other : List Declaration} (hperm : declared.Perm other)
    (hdepicts : world.Depicts declared) : world.Depicts other := by
  constructor
  · intro area harea
    rcases hdepicts.areas area harea with ⟨language, entry, hentry, hfollows⟩
    exact ⟨language, entry, hperm.mem_iff.mp hentry, hfollows⟩
  · exact fun hentry => hdepicts.described (hperm.mem_iff.mpr hentry)
  · intro name
    rw [hdepicts.checks]
    simp only [hperm.mem_iff]
  · intro name
    rw [hdepicts.items]
    simp only [hperm.mem_iff]
  · intro name
    rw [hdepicts.events]
    simp only [hperm.mem_iff]
  · intro name
    rw [← hdepicts.starts, hperm.mem_iff]

/-- The areas of a world are those that are described. -/
theorem Depicts.mem_areaNames_iff (hdepicts : world.Depicts declared) {name : String} :
    name ∈ world.areas.map Area.name ↔
      ∃ declaration ∈ declared, declaration.site? = some (.area name) := by
  constructor
  · intro hname
    rcases List.mem_map.mp hname with ⟨area, harea, rfl⟩
    rcases hdepicts.areas area harea with ⟨language, entry, hentry, hfollows⟩
    exact ⟨_, hentry, by rw [Declaration.site?, hfollows.name]⟩
  · rintro ⟨declaration, hmem, hsite⟩
    cases declaration with
    | area language entry =>
        rcases hdepicts.described hmem with ⟨area, harea, hfollows⟩
        cases hsite
        exact List.mem_map.mpr ⟨area, harea, hfollows.name⟩
    | _ => cases hsite

end World

/-! ## Linking -/

namespace Draft

variable {draft : Draft} {language : Language} {symbols : Symbols}

theorem getElem?_of_findIdx? {α : Type} {name : α → String} {entries : List α} {wanted : String}
    {id : Nat} (hfind : (entries.findIdx? fun entry => name entry == wanted) = some id) :
    (entries.map name)[id]? = some wanted := by
  rcases List.findIdx?_eq_some_iff_getElem.mp hfind with ⟨hlt, hname, -⟩
  rw [List.getElem?_map, List.getElem?_eq_getElem hlt, Option.map_some, beq_iff_eq.mp hname]

theorem target_linkLocation {area : String} {named : NamedGate} {gate : Gate}
    (hlink : draft.linkLocation area named = .ok gate) :
    (draft.checks.map Check.name)[gate.target]? = some named.target := by
  unfold linkLocation at hlink
  split at hlink
  case h_1 found hfound =>
    cases hlink
    exact getElem?_of_findIdx? hfound
  case h_2 => cases hlink

theorem name_of_areaId {reference : AreaReference} {name : String} {id : AreaId}
    (hid : draft.areaId reference name = .ok id) :
    (draft.areas.map AreaDraft.name)[id]? = some name := by
  unfold areaId at hid
  split at hid
  case h_1 found hfound =>
    cases hid
    exact getElem?_of_findIdx? hfound
  case h_2 => cases hid

theorem target_linkExit {area : String} {named : NamedGate} {gate : Gate}
    (hlink : draft.linkExit area named = .ok gate) :
    (draft.areas.map AreaDraft.name)[gate.target]? = some named.target := by
  rcases Outcome.bind_eq_ok.mp hlink with ⟨id, hid, hgate⟩
  cases hgate
  exact name_of_areaId hid

theorem target_linkGossip {named : NamedGate} {gate : Gate}
    (hlink : draft.linkGossip named = .ok gate) :
    (draft.gossips.map GossipStone.name)[gate.target]? = some named.target := by
  unfold linkGossip at hlink
  split at hlink
  case h_1 found hfound =>
    cases hlink
    exact getElem?_of_findIdx? hfound
  case h_2 => cases hlink

/-- Linked gates follow the entries of the places that they were linked from. -/
theorem follows_of_mapM {link : NamedGate → Except LogicError Gate}
    {name? : Nat → Option String}
    (htarget : ∀ {named gate}, link named = .ok gate → name? gate.target = some named.target)
    (hkeeps : ∀ {named gate}, link named = .ok gate → gate.requirement = named.requirement)
    {entries : List (String × String)} {places : List NamedGate} {gates : List Gate}
    (hplaces : List.Forall₂ (PlaceFollows language symbols) entries places)
    (hlinks : places.mapM link = .ok gates) :
    List.Forall₂ (World.GateFollows name? language.game.placeName language symbols) entries
      gates := by
  have hgates := Outcome.mapM_eq_ok.mp hlinks
  clear hlinks
  induction hplaces generalizing gates with
  | nil =>
      cases hgates
      exact .nil
  | cons hfirst _ ih =>
      cases hgates with
      | cons hlink hrest =>
          refine .cons ⟨?_, ?_⟩ (ih hrest)
          · rw [htarget hlink, hfirst.target]
          · rw [hkeeps hlink]
            exact hfirst.requirement

/-- A linked area follows the entry that its draft follows. -/
theorem follows_of_linkArea {world : World} {entry : String × RawArea} {source : AreaDraft}
    {area : Area} (hareas : world.areas.map Area.name = draft.areas.map AreaDraft.name)
    (hchecks : world.checks.map Check.name = draft.checks.map Check.name)
    (hgossips : world.gossips = draft.gossips) (hsymbols : world.symbols = draft.symbols)
    (hfollows : source.Follows language draft.symbols entry)
    (hlink : draft.linkArea source = .ok area) : world.Follows language entry area := by
  rcases linkArea_eq_ok_iff.mp hlink with
    ⟨locations, exits, gossips, hlocations, hexits, hstones, rfl⟩
  have hcheckNames : world.checkName? = fun id => (draft.checks.map Check.name)[id]? := by
    funext id
    rw [World.checkName?, hchecks]
  have hareaNames : world.areaName? = fun id => (draft.areas.map AreaDraft.name)[id]? := by
    funext id
    rw [World.areaName?, hareas]
  have hgossipNames :
      world.gossipName? = fun id => (draft.gossips.map GossipStone.name)[id]? := by
    funext id
    rw [World.gossipName?, hgossips]
  constructor
  · exact hfollows.name
  · rw [hcheckNames, hsymbols]
    exact follows_of_mapM target_linkLocation requirement_linkLocation hfollows.locations
      hlocations
  · rw [hareaNames, hsymbols]
    exact follows_of_mapM target_linkExit requirement_linkExit hfollows.exits hexits
  · refine hfollows.events.imp fun text gate hevent => ⟨?_, ?_⟩
    · rw [World.eventName?, hsymbols]
      exact hevent.target
    · rw [hsymbols]
      exact hevent.requirement
  · rw [hgossipNames, hsymbols]
    exact follows_of_mapM target_linkGossip requirement_linkGossip hfollows.gossips hstones

/-- The world that is linked from a draft depicts what the draft holds. -/
theorem Records.depicts {declared : List Declaration}
    (hrecords : draft.Records declared) {options : Options} {world : World}
    (hlink : draft.link options = .ok world) : world.Depicts declared := by
  rcases link_eq_ok_iff.mp hlink with ⟨areas, starts, hareas, hstarts, hsymbols, rfl⟩
  have haccounts := checkSymbols_eq_ok_iff_accounts.mp hsymbols
  have hareaNames := names_of_linkAreas hareas
  have hcheckNames := names_foldl_tagChecks areas draft.checks
  have hprovided : ∀ name, draft.Accounts options name ↔ options.Accounts declared name :=
    fun name => hrecords.accounts_iff
  constructor
  · intro area harea
    rcases Outcome.exists_of_mem_mapM hareas harea with ⟨source, hsource, hlink⟩
    rcases hrecords.areas source hsource with ⟨language, entry, hentry, hfollows⟩
    exact ⟨language, entry, hentry,
      follows_of_linkArea hareaNames hcheckNames rfl rfl hfollows hlink⟩
  · intro language entry hentry
    rcases hrecords.described hentry with ⟨source, hsource, hfollows⟩
    rcases List.mem_iff_getElem?.mp hsource with ⟨place, hplace⟩
    rcases Outcome.getElem?_mapM hareas hplace with ⟨area, harea, hlink⟩
    exact ⟨area, List.mem_of_getElem? harea,
      follows_of_linkArea hareaNames hcheckNames rfl rfl hfollows hlink⟩
  · intro name
    rw [hcheckNames, ← hrecords.sites, check_mem_sites_iff]
  · intro name
    constructor
    · exact fun hknown => (hprovided (.item name)).mp (haccounts (.item name) hknown)
    · rintro ⟨declaration, hmem, hprovides⟩
      exact (hrecords.knows (.item name)).mpr ⟨declaration, hmem, .inr hprovides⟩
  · intro name
    constructor
    · exact fun hknown => (hprovided (.event name)).mp (haccounts (.event name) hknown)
    · rintro ⟨declaration, hmem, hprovides⟩
      exact (hrecords.knows (.event name)).mpr ⟨declaration, hmem, .inr hprovides⟩
  · intro name
    rw [← hrecords.starts]
    simp only [World.areaName?, hareaNames]
    constructor
    · intro hmem
      rcases List.mem_iff_getElem?.mp hmem with ⟨place, hplace⟩
      rcases Outcome.getElem?_mapM hstarts hplace with ⟨id, hid, hfound⟩
      exact ⟨id, List.mem_of_getElem? hid, name_of_areaId hfound⟩
    · rintro ⟨id, hid, hname⟩
      rcases Outcome.exists_of_mem_mapM hstarts hid with ⟨other, hother, hfound⟩
      cases hname.symm.trans (name_of_areaId hfound)
      exact hother

end Draft

/-- A world that is built depicts the entries of its tables. -/
theorem World.depicts_of_build {tables : List GameTable} {options : Options}
    {constraint : String → Constraint} {world : World}
    (hbuild : (World.build tables options constraint).result = .ok world) :
    world.Depicts (GameTable.allDeclarations tables) := by
  rcases World.build_eq_ok_iff.mp hbuild with ⟨draft, hload, hlink⟩
  exact (Draft.records_of_loadAll hload).depicts hlink

end SeedLogic
