import SeedLogic.Proofs.World.Declarations

/-!
# Consistent tables

A world is built from tables when their macros are well-formed, every entry fits, no two
entries describe the same place, every place that is referred to is described by some table,
and every name that is mentioned is accounted for (`exists_build_iff`).  None of this is
about the order of the tables (`Consistent.perm`).
-/

namespace SeedLogic

/-- The entries of several tables. -/
def GameTable.allDeclarations (tables : List GameTable) : List Declaration :=
  tables.flatMap declarations

/-- A mentioned item or event is provided by an entry, and a setting is known. -/
def Options.Accounts (options : Options) (declared : List Declaration) : Mention → Prop
  | .setting key => options.knows key.name = true
  | name => ∃ declaration ∈ declared, name ∈ declaration.provides

/-- Tables from which a world can be built. -/
structure Consistent (tables : List GameTable) (options : Options) : Prop where
  macros : ∀ table ∈ tables, ∃ macros, Draft.macrosOf table = .ok macros
  fits : ∀ declaration ∈ GameTable.allDeclarations tables, declaration.Fits
  distinct : ((GameTable.allDeclarations tables).filterMap Declaration.site?).Nodup
  targets : ∀ declaration ∈ GameTable.allDeclarations tables, ∀ site ∈ declaration.targets,
    ∃ other ∈ GameTable.allDeclarations tables, other.site? = some site
  mentions : ∀ declaration ∈ GameTable.allDeclarations tables, ∀ name,
    declaration.Mentions name → options.Accounts (GameTable.allDeclarations tables) name

namespace Draft

variable {draft : Draft} {options : Options}

/-! ## Linking -/

theorem exists_findIdx?_iff {α : Type} {name : α → String} {entries : List α} {wanted : String} :
    (∃ id, (entries.findIdx? fun entry => name entry == wanted) = some id) ↔
      wanted ∈ entries.map name := by
  rw [← Option.isSome_iff_exists, List.findIdx?_isSome]
  simp

theorem exists_linkLocation_iff {area : String} {gate : NamedGate} :
    (∃ linked, draft.linkLocation area gate = .ok linked) ↔ .check gate.target ∈ draft.sites := by
  rw [check_mem_sites_iff, ← exists_findIdx?_iff, linkLocation]
  cases draft.checks.findIdx? fun check => check.name == gate.target <;> simp

theorem exists_areaId_iff {reference : AreaReference} {name : String} :
    (∃ id, draft.areaId reference name = .ok id) ↔ .area name ∈ draft.sites := by
  rw [area_mem_sites_iff, ← exists_findIdx?_iff, areaId]
  cases draft.areas.findIdx? fun area => area.name == name <;> simp

theorem exists_linkExit_iff {area : String} {gate : NamedGate} :
    (∃ linked, draft.linkExit area gate = .ok linked) ↔ .area gate.target ∈ draft.sites := by
  rw [← @exists_areaId_iff draft (.area area)]
  simp [linkExit, Outcome.bind_eq_ok]

theorem exists_linkGossip_iff {gate : NamedGate} :
    (∃ linked, draft.linkGossip gate = .ok linked) ↔ .stone gate.target ∈ draft.sites := by
  rw [stone_mem_sites_iff, ← exists_findIdx?_iff, linkGossip]
  cases draft.gossips.findIdx? fun gossip => gossip.name == gate.target <;> simp

/-- An area is linked when everything that it leads to is described. -/
theorem exists_linkArea_iff {area : AreaDraft} :
    (∃ linked, draft.linkArea area = .ok linked) ↔
      ∀ site ∈ area.targets, site ∈ draft.sites := by
  have hlink : (∃ linked, draft.linkArea area = .ok linked) ↔
      (∃ locations, area.locations.mapM (draft.linkLocation area.name) = .ok locations) ∧
      (∃ exits, area.exits.mapM (draft.linkExit area.name) = .ok exits) ∧
      ∃ gossips, area.gossips.mapM draft.linkGossip = .ok gossips := by
    simp only [linkArea_eq_ok_iff]
    constructor
    · rintro ⟨_, locations, exits, gossips, hlocations, hexits, hgossips, -⟩
      exact ⟨⟨locations, hlocations⟩, ⟨exits, hexits⟩, ⟨gossips, hgossips⟩⟩
    · rintro ⟨⟨locations, hlocations⟩, ⟨exits, hexits⟩, ⟨gossips, hgossips⟩⟩
      exact ⟨_, locations, exits, gossips, hlocations, hexits, hgossips, rfl⟩
  rw [hlink, Outcome.exists_mapM_iff, Outcome.exists_mapM_iff, Outcome.exists_mapM_iff]
  simp only [exists_linkLocation_iff, exists_linkExit_iff, exists_linkGossip_iff,
    AreaDraft.targets, List.forall_mem_append, List.forall_mem_map, and_assoc]

/-- A draft accounts for a name: it provides it, or the setting is known. -/
def Accounts (draft : Draft) (options : Options) : Mention → Prop
  | .setting key => options.knows key.name = true
  | name => name ∈ draft.provided

theorem checkSymbols_eq_ok_iff_accounts :
    draft.checkSymbols options = .ok () ↔
      ∀ name, draft.symbols.Knows name → draft.Accounts options name := by
  rw [checkSymbols_eq_ok_iff]
  constructor
  · rintro ⟨hitems, hevents, hsettings⟩ (name | name | key) hknows
    · simpa [Accounts, provided] using hitems name hknows
    · simpa [Accounts, provided] using hevents name hknows
    · exact hsettings key hknows
  · intro hall
    refine ⟨fun name hname => ?_, fun name hname => ?_, fun key hkey => hall (.setting key) hkey⟩
    · simpa [Accounts, provided] using hall (.item name) hname
    · simpa [Accounts, provided] using hall (.event name) hname

/-- A draft is linked when everything referred to is described and every name is accounted
for. -/
theorem exists_link_iff :
    (∃ world, draft.link options = .ok world) ↔
      (∀ site ∈ draft.targets, site ∈ draft.sites) ∧
        ∀ name, draft.symbols.Knows name → draft.Accounts options name := by
  have hlink : (∃ world, draft.link options = .ok world) ↔
      (∃ areas, draft.areas.mapM draft.linkArea = .ok areas) ∧
      (∃ starts, draft.starts.mapM (draft.areaId .tableStart) = .ok starts) ∧
      draft.checkSymbols options = .ok () := by
    simp only [link_eq_ok_iff]
    constructor
    · rintro ⟨_, areas, starts, hareas, hstarts, hsymbols, -⟩
      exact ⟨⟨areas, hareas⟩, ⟨starts, hstarts⟩, hsymbols⟩
    · rintro ⟨⟨areas, hareas⟩, ⟨starts, hstarts⟩, hsymbols⟩
      exact ⟨_, areas, starts, hareas, hstarts, hsymbols, rfl⟩
  rw [hlink, Outcome.exists_mapM_iff, Outcome.exists_mapM_iff, checkSymbols_eq_ok_iff_accounts]
  simp only [exists_linkArea_iff, exists_areaId_iff, targets, List.forall_mem_append,
    List.forall_mem_flatMap, List.forall_mem_map, and_assoc]

end Draft

/-! ## Building -/

variable {tables : List GameTable} {options : Options} {constraint : String → Constraint}

/-- Once tables have been loaded, the draft holds what their entries say. -/
theorem Draft.records_of_loadAll {draft : Draft}
    (hload : (loadAll constraint .empty tables).result = .ok draft) :
    draft.Records (GameTable.allDeclarations tables) := by
  have hall := records_empty.declareAll (loadAll_eq_ok_iff.mp hload).2
  rwa [List.nil_append] at hall

/-- Tables are loaded when their macros are well-formed, every entry fits, and no two of
them describe the same place. -/
theorem Draft.exists_loadAll_iff :
    (∃ draft, (loadAll constraint .empty tables).result = .ok draft) ↔
      (∀ table ∈ tables, ∃ macros, macrosOf table = .ok macros) ∧
        (∀ declaration ∈ GameTable.allDeclarations tables, declaration.Fits) ∧
        ((GameTable.allDeclarations tables).filterMap Declaration.site?).Nodup := by
  have hfresh : ∀ site ∈ (GameTable.allDeclarations tables).filterMap Declaration.site?,
      site ∉ empty.sites :=
    fun site _ => List.not_mem_nil
  simp only [loadAll_eq_ok_iff, exists_and_left, exists_foldlM_declare_iff]
  exact ⟨fun ⟨hmacros, hfits, hdistinct, _⟩ => ⟨hmacros, hfits, hdistinct⟩,
    fun ⟨hmacros, hfits, hdistinct⟩ => ⟨hmacros, hfits, hdistinct, hfresh⟩⟩

/-- A draft accounts for a name when the entries that it holds do. -/
theorem Draft.Records.accounts_iff {declared : List Declaration} {draft : Draft}
    (hrecords : draft.Records declared) {name : Mention} :
    draft.Accounts options name ↔ options.Accounts declared name := by
  cases name with
  | item name => exact hrecords.provided _
  | event name => exact hrecords.provided _
  | setting key => rfl

/-- A world is built from exactly the consistent tables. -/
theorem World.exists_build_iff :
    (∃ world, (World.build tables options constraint).result = .ok world) ↔
      Consistent tables options := by
  simp only [World.build_eq_ok_iff]
  constructor
  · rintro ⟨world, draft, hload, hlink⟩
    have hrecords := Draft.records_of_loadAll hload
    rcases Draft.exists_loadAll_iff.mp ⟨draft, hload⟩ with ⟨hmacros, hfits, hdistinct⟩
    rcases Draft.exists_link_iff.mp ⟨world, hlink⟩ with ⟨htargets, hnames⟩
    refine ⟨hmacros, hfits, hdistinct, fun declaration hmem site hsite => ?_,
      fun declaration hmem name hname => ?_⟩
    · exact (hrecords.sites site).mp
        (htargets site ((hrecords.targets site).mpr ⟨declaration, hmem, hsite⟩))
    · exact hrecords.accounts_iff.mp
        (hnames name ((hrecords.knows name).mpr ⟨declaration, hmem, hname⟩))
  · intro hconsistent
    rcases Draft.exists_loadAll_iff.mpr
      ⟨hconsistent.macros, hconsistent.fits, hconsistent.distinct⟩ with ⟨draft, hload⟩
    have hrecords := Draft.records_of_loadAll hload
    have hlink : ∃ world, draft.link options = .ok world := by
      refine Draft.exists_link_iff.mpr ⟨fun site hsite => ?_, fun name hname => ?_⟩
      · rcases (hrecords.targets site).mp hsite with ⟨declaration, hmem, hsite⟩
        exact (hrecords.sites site).mpr (hconsistent.targets declaration hmem site hsite)
      · rcases (hrecords.knows name).mp hname with ⟨declaration, hmem, hname⟩
        exact hrecords.accounts_iff.mpr (hconsistent.mentions declaration hmem name hname)
    rcases hlink with ⟨world, hlink⟩
    exact ⟨world, draft, hload, hlink⟩

/-! ## The order of tables -/

theorem GameTable.perm_allDeclarations {other : List GameTable} (hperm : tables.Perm other) :
    (allDeclarations tables).Perm (allDeclarations other) :=
  hperm.flatMap_right _

theorem Options.Accounts.mono {fewer more : List Declaration} (hsubset : fewer ⊆ more)
    {name : Mention} (haccounts : options.Accounts fewer name) : options.Accounts more name := by
  cases name with
  | setting key => exact haccounts
  | item name | event name =>
      rcases haccounts with ⟨declaration, hmem, hname⟩
      exact ⟨declaration, hsubset hmem, hname⟩

/-- Tables are consistent in any order. -/
theorem Consistent.perm {other : List GameTable} (hperm : tables.Perm other)
    (hconsistent : Consistent tables options) : Consistent other options := by
  have hall := GameTable.perm_allDeclarations hperm
  constructor
  · exact fun table htable => hconsistent.macros table (hperm.mem_iff.mpr htable)
  · exact fun declaration hmem => hconsistent.fits declaration (hall.mem_iff.mpr hmem)
  · exact (hall.filterMap _).nodup_iff.mp hconsistent.distinct
  · intro declaration hmem site hsite
    rcases hconsistent.targets declaration (hall.mem_iff.mpr hmem) site hsite with
      ⟨describing, hdescribing, hsame⟩
    exact ⟨describing, hall.mem_iff.mp hdescribing, hsame⟩
  · exact fun declaration hmem name hname =>
      (hconsistent.mentions declaration (hall.mem_iff.mpr hmem) name hname).mono hall.subset

end SeedLogic
