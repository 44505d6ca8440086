import SeedLogic.Proofs.World.Consistency

/-!
# Acceptable tables

Which tables a world is built from, said of the tables alone: their macros, the texts of
their requirements and the names that occur in them (`Acceptable`).  A world is built from
these tables and no others (`World.build_accepts`).
-/

namespace SeedLogic

/-! ## What a table says -/

/-- The identification of a check suits its type: a number for a chest and the like, and a
name for a person. -/
def RawCheck.SuitsType (check : RawCheck) : Prop :=
  match check.type, check.id with
  | .numeric _, .number _ => True
  | .symbolic _, .name _ => True
  | .numeric _, .name _ => False
  | .symbolic _, .number _ => False

namespace GameTable

/-- The macro of a header and a body, if the header is well-formed. -/
def macro? (entry : String × String) : Option Macro :=
  (MacroHeader.parse entry.1).toOption.map fun header => ⟨header.name, header.params, entry.2⟩

/-- The macros of a table that have a well-formed header. -/
def macroTable (table : GameTable) : MacroTable :=
  ⟨table.macros.entries.filterMap macro?⟩

/-- The texts of the requirements of all locations, exits, events and hint stones. -/
def texts (table : GameTable) : List String :=
  table.areas.entries.flatMap fun entry => entry.2.texts.map Prod.snd

/-- What a text says by the macros of a table, with the names met on the way. -/
def reading (table : GameTable) (text : String) : Recorded Mention LogicError Formula :=
  Formula.parse table.game table.macroTable text

def areaNames (table : GameTable) : List String :=
  table.areas.keys.map table.game.placeName

def checkNames (table : GameTable) : List String :=
  table.pool.map fun check => table.game.placeName check.location

def stoneNames (table : GameTable) : List String :=
  table.gossip.keys.map table.game.placeName

/-- The items that a table lists, and those of its pool. -/
def itemNames (table : GameTable) : List String :=
  table.items.map table.game.symbolName ++
    table.pool.map fun check => table.game.symbolName check.item

/-- The events that the areas of a table define. -/
def eventNames (table : GameTable) : List String :=
  table.areas.entries.flatMap fun entry => entry.2.events.keys.map table.game.symbolName

end GameTable

/-- Tables that fit together.  Names count in full, and what one table refers to may be
declared by any of them. -/
structure Acceptable (tables : List GameTable) (options : Options) : Prop where
  headers : ∀ table ∈ tables, ∀ entry ∈ table.macros.entries,
    ∃ header, MacroHeader.parse entry.1 = .ok header
  macros : ∀ table ∈ tables, (table.macroTable.macros.map Macro.name).Nodup
  requirements : ∀ table ∈ tables, ∀ text ∈ table.texts,
    ∃ formula, (table.reading text).result = .ok formula
  areas : (tables.flatMap GameTable.areaNames).Nodup
  checks : (tables.flatMap GameTable.checkNames).Nodup
  stones : (tables.flatMap GameTable.stoneNames).Nodup
  pool : ∀ table ∈ tables, ∀ check ∈ table.pool, check.SuitsType
  locations : ∀ table ∈ tables, ∀ entry ∈ table.areas.entries,
    ∀ name ∈ entry.2.locations.keys,
      table.game.placeName name ∈ tables.flatMap GameTable.checkNames
  exits : ∀ table ∈ tables, ∀ entry ∈ table.areas.entries, ∀ name ∈ entry.2.exits.keys,
    table.game.placeName name ∈ tables.flatMap GameTable.areaNames
  gossips : ∀ table ∈ tables, ∀ entry ∈ table.areas.entries, ∀ name ∈ entry.2.gossip.keys,
    table.game.placeName name ∈ tables.flatMap GameTable.stoneNames
  starts : ∀ table ∈ tables, ∀ name ∈ table.start,
    table.game.placeName name ∈ tables.flatMap GameTable.areaNames
  items : ∀ table ∈ tables, ∀ text ∈ table.texts, ∀ name,
    .item name ∈ (table.reading text).trace → name ∈ tables.flatMap GameTable.itemNames
  events : ∀ table ∈ tables, ∀ text ∈ table.texts, ∀ name,
    .event name ∈ (table.reading text).trace → name ∈ tables.flatMap GameTable.eventNames
  settings : ∀ table ∈ tables, ∀ text ∈ table.texts, ∀ key,
    .setting key ∈ (table.reading text).trace → options.knows key.name = true

/-! ## Macros -/

section Macros

variable {macros next : MacroTable} {entries : List (String × String)}

theorem MacroTable.find?_isSome_iff {name : String} :
    (macros.find? name).isSome = true ↔ name ∈ macros.macros.map Macro.name := by
  simp [find?, List.find?_isSome]

/-- A macro is declared when its header is well-formed and its name is free. -/
theorem MacroTable.declare_eq_ok_iff {entry : String × String} :
    macros.declare entry.1 entry.2 = .ok next ↔
      ∃ added, GameTable.macro? entry = some added ∧
        added.name ∉ macros.macros.map Macro.name ∧ next = ⟨macros.macros ++ [added]⟩ := by
  unfold declare GameTable.macro?
  cases MacroHeader.parse entry.1 with
  | error fault => simp [Except.toOption]
  | ok header =>
      simp only [add, find?_isSome_iff, Except.toOption, Option.map_some, Option.some.injEq,
        exists_eq_left']
      by_cases htaken : header.name ∈ macros.macros.map Macro.name
      · simp [htaken]
      · rw [if_neg htaken, Except.ok.injEq, eq_comm]
        exact ⟨fun hnext => ⟨htaken, hnext⟩, And.right⟩

/-- Macros are declared one after the other when all headers are well-formed and no name is
declared twice. -/
theorem MacroTable.foldlM_declare_eq_ok_iff :
    entries.foldlM (fun macros entry => macros.declare entry.1 entry.2) macros = .ok next ↔
      (∀ entry ∈ entries, ∃ added, GameTable.macro? entry = some added) ∧
        ((entries.filterMap GameTable.macro?).map Macro.name).Nodup ∧
        (∀ added ∈ entries.filterMap GameTable.macro?,
          added.name ∉ macros.macros.map Macro.name) ∧
        next = ⟨macros.macros ++ entries.filterMap GameTable.macro?⟩ := by
  induction entries generalizing macros with
  | nil => simp [pure, Except.pure, eq_comm]
  | cons entry entries ih =>
      rw [List.foldlM_cons, Outcome.bind_eq_ok, List.forall_mem_cons]
      constructor
      · rintro ⟨middle, hfirst, hrest⟩
        rcases declare_eq_ok_iff.mp hfirst with ⟨added, hadded, hfree, rfl⟩
        rcases ih.mp hrest with ⟨hall, hnodup, hnew, rfl⟩
        rw [List.filterMap_cons_some hadded]
        simp only [List.map_append, List.mem_append, not_or] at hnew
        refine ⟨⟨⟨added, hadded⟩, hall⟩, ?_, ?_, by simp⟩
        · rw [List.map_cons, List.nodup_cons]
          constructor
          · intro hmem
            rcases List.mem_map.mp hmem with ⟨other, hother, hname⟩
            apply (hnew other hother).2
            simp [hname]
          · exact hnodup
        · intro other hother
          rcases List.mem_cons.mp hother with rfl | hother
          · exact hfree
          · exact (hnew other hother).1
      · rintro ⟨⟨⟨added, hadded⟩, hall⟩, hnodup, hnew, hnext⟩
        rw [List.filterMap_cons_some hadded] at hnodup hnew hnext
        rw [List.map_cons, List.nodup_cons] at hnodup
        have hfree := hnew added List.mem_cons_self
        have hrest : ∀ other ∈ entries.filterMap GameTable.macro?,
            other.name ∉ (macros.macros ++ [added]).map Macro.name := by
          intro other hother hmem
          rw [List.map_append] at hmem
          rcases List.mem_append.mp hmem with hold | hlast
          · exact hnew other (List.mem_cons_of_mem _ hother) hold
          · apply hnodup.1
            rw [← (List.mem_singleton.mp hlast : other.name = added.name)]
            exact List.mem_map_of_mem hother
        exact ⟨_, declare_eq_ok_iff.mpr ⟨added, hadded, hfree, rfl⟩,
          ih.mpr ⟨hall, hnodup.2, hrest, by rw [hnext, List.append_assoc, List.singleton_append]⟩⟩

end Macros

namespace Draft

variable {table : GameTable}

/-- The macros of a table are well-formed when its headers are, and have names of their
own. -/
theorem macrosOf_eq_ok_iff {macros : MacroTable} :
    macrosOf table = .ok macros ↔
      (∀ entry ∈ table.macros.entries, ∃ header, MacroHeader.parse entry.1 = .ok header) ∧
        (table.macroTable.macros.map Macro.name).Nodup ∧ macros = table.macroTable := by
  have hheader : ∀ entry, (∃ added, GameTable.macro? entry = some added) ↔
      ∃ header, MacroHeader.parse entry.1 = .ok header := by
    intro entry
    unfold GameTable.macro?
    cases MacroHeader.parse entry.1 <;> simp [Except.toOption]
  unfold macrosOf
  rw [MacroTable.foldlM_declare_eq_ok_iff]
  simp only [hheader]
  simp [MacroTable.empty, GameTable.macroTable]

/-- A table with well-formed macros is read by them. -/
theorem language_eq_of_macrosOf {macros : MacroTable} (hmacros : macrosOf table = .ok macros) :
    table.language = ⟨table.game, table.macroTable⟩ := by
  have hsame := (macrosOf_eq_ok_iff.mp hmacros).2.2
  rw [GameTable.language, hmacros, hsame]
  rfl

end Draft

/-! ## Texts -/

namespace Language

variable {language : Language} {text : String}

/-- What a text says is what it is read as. -/
theorem readable_iff :
    language.Readable text ↔
      ∃ formula, (Formula.parse language.game language.macros text).result = .ok formula := by
  have hdescribes := Grammar.describes_ofMacros language.game language.macros maxMacroDepth
  constructor
  · rintro ⟨formula, hreads⟩
    have hparse := (Formula.parse_eq_ok_iff hdescribes).mpr ⟨rfl, hreads⟩
    exact ⟨formula, congrArg Recorded.result hparse⟩
  · rintro ⟨formula, hresult⟩
    have hparse : Formula.parse language.game language.macros text = ⟨_, .ok formula⟩ :=
      Recorded.ext rfl hresult
    exact ⟨formula, ((Formula.parse_eq_ok_iff hdescribes).mp hparse).2⟩

/-- The names of a text that says something are those met in reading it. -/
theorem mentions_iff (hreadable : language.Readable text) {name : Mention} :
    language.Mentions text name ↔
      name ∈ (Formula.parse language.game language.macros text).trace := by
  rcases hreadable with ⟨formula, hreads⟩
  have hparse := (Formula.parse_eq_ok_iff
    (Grammar.describes_ofMacros language.game language.macros maxMacroDepth)).mpr ⟨rfl, hreads⟩
  rw [hparse]
  constructor
  · rintro ⟨other, hother, hname⟩
    exact hreads.unique hother ▸ hname
  · intro hname
    exact ⟨formula, hreads, hname⟩

end Language

/-! ## Names of places -/

namespace Site

def area? : Site → Option String
  | .area name => some name
  | _ => none

def check? : Site → Option String
  | .check name => some name
  | _ => none

def stone? : Site → Option String
  | .stone name => some name
  | _ => none

theorem area?_eq_some_iff {site : Site} {name : String} :
    site.area? = some name ↔ site = .area name := by
  cases site <;> simp [area?]

theorem check?_eq_some_iff {site : Site} {name : String} :
    site.check? = some name ↔ site = .check name := by
  cases site <;> simp [check?]

theorem stone?_eq_some_iff {site : Site} {name : String} :
    site.stone? = some name ↔ site = .stone name := by
  cases site <;> simp [stone?]

/-- A name is that of one of the places of its kind. -/
theorem mem_filterMap_iff {part? : Site → Option String} {make : String → Site}
    (hpart : ∀ {site name}, part? site = some name ↔ site = make name) {sites : List Site}
    {name : String} : name ∈ sites.filterMap part? ↔ make name ∈ sites := by
  simp [List.mem_filterMap, hpart]

/-- Places are different when areas, checks and hint stones are, each among themselves. -/
theorem nodup_iff {sites : List Site} :
    sites.Nodup ↔ (sites.filterMap area?).Nodup ∧ (sites.filterMap check?).Nodup ∧
      (sites.filterMap stone?).Nodup := by
  simp only [List.Nodup, List.pairwise_filterMap, ← List.pairwise_and_iff]
  apply List.Pairwise.iff
  rintro (left | left | left) (right | right | right) <;> simp [area?, check?, stone?]

end Site

/-! ## Entries -/

theorem RawCheck.suitsType_iff {check : RawCheck} (name : String) :
    check.SuitsType ↔ ∃ kind, Draft.checkKind name check = .ok kind := by
  unfold SuitsType Draft.checkKind
  cases check.type <;> cases check.id <;> simp

namespace GameTable

variable {tables : List GameTable} {table : GameTable} {name : String}

theorem game_language (table : GameTable) : table.language.game = table.game :=
  rfl

/-- What holds of all entries of some tables, kind by kind. -/
theorem forall_allDeclarations_iff {Holds : Declaration → Prop} :
    (∀ declaration ∈ allDeclarations tables, Holds declaration) ↔ ∀ table ∈ tables,
      (∀ entry ∈ table.areas.entries, Holds (.area table.language entry)) ∧
      (∀ name ∈ table.items, Holds (.item (table.game.symbolName name))) ∧
      (∀ check ∈ table.pool, Holds (.check table.game check)) ∧
      (∀ entry ∈ table.gossip.entries, Holds (.stone table.game entry)) ∧
      ∀ name ∈ table.start, Holds (.start (table.game.placeName name)) := by
  simp only [allDeclarations, declarations, List.forall_mem_flatMap, List.forall_mem_append,
    List.forall_mem_map, and_assoc]

/-! ### Places -/

theorem filterMap_area?_sites :
    ((allDeclarations tables).filterMap Declaration.site?).filterMap Site.area? =
      tables.flatMap areaNames := by
  rw [List.filterMap_filterMap, allDeclarations, List.filterMap_flatMap]
  congr 1
  funext table
  simp [declarations, areaNames, Dict.keys, List.filterMap_map, Function.comp_def,
    Declaration.site?, Site.area?, game_language]

theorem filterMap_check?_sites :
    ((allDeclarations tables).filterMap Declaration.site?).filterMap Site.check? =
      tables.flatMap checkNames := by
  rw [List.filterMap_filterMap, allDeclarations, List.filterMap_flatMap]
  congr 1
  funext table
  simp [declarations, checkNames, List.filterMap_map, Function.comp_def, Declaration.site?,
    Site.check?]

theorem filterMap_stone?_sites :
    ((allDeclarations tables).filterMap Declaration.site?).filterMap Site.stone? =
      tables.flatMap stoneNames := by
  rw [List.filterMap_filterMap, allDeclarations, List.filterMap_flatMap]
  congr 1
  funext table
  simp [declarations, stoneNames, Dict.keys, List.filterMap_map, Function.comp_def,
    Declaration.site?, Site.stone?]

/-- Places are described once when the names of areas, checks and hint stones are
distinct. -/
theorem nodup_sites_iff :
    ((allDeclarations tables).filterMap Declaration.site?).Nodup ↔
      (tables.flatMap areaNames).Nodup ∧ (tables.flatMap checkNames).Nodup ∧
        (tables.flatMap stoneNames).Nodup := by
  rw [Site.nodup_iff, filterMap_area?_sites, filterMap_check?_sites, filterMap_stone?_sites]

theorem exists_area_iff :
    (∃ other ∈ allDeclarations tables, other.site? = some (.area name)) ↔
      name ∈ tables.flatMap areaNames := by
  rw [← filterMap_area?_sites, Site.mem_filterMap_iff Site.area?_eq_some_iff, List.mem_filterMap]

theorem exists_check_iff :
    (∃ other ∈ allDeclarations tables, other.site? = some (.check name)) ↔
      name ∈ tables.flatMap checkNames := by
  rw [← filterMap_check?_sites, Site.mem_filterMap_iff Site.check?_eq_some_iff, List.mem_filterMap]

theorem exists_stone_iff :
    (∃ other ∈ allDeclarations tables, other.site? = some (.stone name)) ↔
      name ∈ tables.flatMap stoneNames := by
  rw [← filterMap_stone?_sites, Site.mem_filterMap_iff Site.stone?_eq_some_iff, List.mem_filterMap]

/-- Everything referred to is described when every location, exit, hint stone and start
area is. -/
theorem forall_targets_iff :
    (∀ declaration ∈ allDeclarations tables, ∀ site ∈ declaration.targets,
        ∃ other ∈ allDeclarations tables, other.site? = some site) ↔
      ∀ table ∈ tables,
        (∀ entry ∈ table.areas.entries,
          (∀ name ∈ entry.2.locations.keys,
            table.game.placeName name ∈ tables.flatMap checkNames) ∧
          (∀ name ∈ entry.2.exits.keys, table.game.placeName name ∈ tables.flatMap areaNames) ∧
          ∀ name ∈ entry.2.gossip.keys,
            table.game.placeName name ∈ tables.flatMap stoneNames) ∧
        ∀ name ∈ table.start, table.game.placeName name ∈ tables.flatMap areaNames := by
  rw [forall_allDeclarations_iff]
  simp only [Declaration.targets, List.forall_mem_append, List.forall_mem_map, exists_area_iff,
    exists_check_iff, exists_stone_iff, game_language, List.forall_mem_singleton, and_assoc]
  simp

/-! ### Items and events -/

theorem exists_item_iff :
    (∃ other ∈ allDeclarations tables, .item name ∈ other.provides) ↔
      name ∈ tables.flatMap itemNames := by
  have htable : ∀ table : GameTable,
      .item name ∈ table.declarations.flatMap Declaration.provides ↔ name ∈ table.itemNames := by
    intro table
    simp [declarations, Declaration.provides, itemNames, eq_comm]
  rw [← List.mem_flatMap, allDeclarations, List.flatMap_assoc, List.mem_flatMap, List.mem_flatMap]
  simp only [htable]

theorem exists_event_iff :
    (∃ other ∈ allDeclarations tables, .event name ∈ other.provides) ↔
      name ∈ tables.flatMap eventNames := by
  have htable : ∀ table : GameTable,
      .event name ∈ table.declarations.flatMap Declaration.provides ↔
        name ∈ table.eventNames := by
    intro table
    simp [declarations, Declaration.provides, eventNames, game_language]
  rw [← List.mem_flatMap, allDeclarations, List.flatMap_assoc, List.mem_flatMap, List.mem_flatMap]
  simp only [htable]

/-- No entry provides a setting. -/
theorem not_provides_setting (declaration : Declaration) (key : SettingKey) :
    .setting key ∉ declaration.provides := by
  cases declaration <;> simp [Declaration.provides]

/-! ### Texts -/

section Language

variable (hlanguage : table.language = ⟨table.game, table.macroTable⟩)
include hlanguage

/-- The areas of a table are read when all its texts are. -/
theorem forall_fits_iff :
    (∀ entry ∈ table.areas.entries, (Declaration.area table.language entry).Fits) ↔
      ∀ text ∈ table.texts, ∃ formula, (table.reading text).result = .ok formula := by
  simp only [Declaration.Fits, texts, List.forall_mem_flatMap, List.forall_mem_map,
    Language.readable_iff, hlanguage, reading]

/-- The texts of the areas mention the names that are met in reading them. -/
theorem exists_textsMention_iff
    (hreadable : ∀ text ∈ table.texts, ∃ formula, (table.reading text).result = .ok formula)
    {wanted : Mention} :
    (∃ entry ∈ table.areas.entries,
      (Declaration.area table.language entry).TextsMention wanted) ↔
    ∃ text ∈ table.texts, wanted ∈ (table.reading text).trace := by
  have hmention : ∀ text ∈ table.texts, table.language.Mentions text wanted ↔
      wanted ∈ (table.reading text).trace := by
    intro text htext
    rw [Language.mentions_iff, hlanguage]
    · rfl
    · rw [Language.readable_iff, hlanguage]
      exact hreadable text htext
  have hmem : ∀ text, text ∈ table.texts ↔
      ∃ entry ∈ table.areas.entries, ∃ line ∈ entry.2.texts, line.2 = text := by
    intro text
    simp only [texts, List.mem_flatMap, List.mem_map]
  constructor
  · rintro ⟨entry, hentry, line, hline, hwanted⟩
    have htext := (hmem line.2).mpr ⟨entry, hentry, line, hline, rfl⟩
    exact ⟨line.2, htext, (hmention line.2 htext).mp hwanted⟩
  · rintro ⟨text, htext, hwanted⟩
    obtain ⟨entry, hentry, line, hline, rfl⟩ := (hmem text).mp htext
    exact ⟨entry, hentry, line, hline, (hmention line.2 htext).mpr hwanted⟩

end Language

end GameTable

/-! ## Accounting for names -/

section Accounts

variable {tables : List GameTable} {options : Options}

/-- A name that an entry provides is accounted for. -/
theorem Options.accounts_of_provides {declared : List Declaration} {declaration : Declaration}
    (hdeclaration : declaration ∈ declared) {name : Mention}
    (hprovides : name ∈ declaration.provides) : options.Accounts declared name := by
  cases name with
  | item name | event name => exact ⟨declaration, hdeclaration, hprovides⟩
  | setting key => exact absurd hprovides (GameTable.not_provides_setting declaration key)

/-- The names of all entries are accounted for when those met in the texts are. -/
theorem GameTable.forall_mentions_iff
    (hlanguage : ∀ table ∈ tables, table.language = ⟨table.game, table.macroTable⟩)
    (hreadable : ∀ table ∈ tables, ∀ text ∈ table.texts,
      ∃ formula, (table.reading text).result = .ok formula) :
    (∀ declaration ∈ allDeclarations tables, ∀ name, declaration.Mentions name →
        options.Accounts (allDeclarations tables) name) ↔
      ∀ table ∈ tables, ∀ text ∈ table.texts, ∀ name ∈ (table.reading text).trace,
        options.Accounts (allDeclarations tables) name := by
  constructor
  · intro hall table htable text htext name hname
    obtain ⟨entry, hentry, hmentions⟩ := (exists_textsMention_iff (hlanguage table htable)
      (hreadable table htable)).mpr ⟨text, htext, hname⟩
    exact (forall_allDeclarations_iff.mp hall table htable).1 entry hentry name (.inl hmentions)
  · intro hall declaration hdeclaration name hmentions
    rcases hmentions with htexts | hprovides
    · have hkinds : ∀ table ∈ tables, ∀ entry ∈ table.areas.entries,
          (Declaration.area table.language entry).TextsMention name →
            options.Accounts (allDeclarations tables) name := by
        intro table htable entry hentry hmentions
        obtain ⟨text, htext, hname⟩ := (exists_textsMention_iff (hlanguage table htable)
          (hreadable table htable)).mp ⟨entry, hentry, hmentions⟩
        exact hall table htable text htext name hname
      revert htexts
      revert declaration
      rw [forall_allDeclarations_iff]
      exact fun table htable => ⟨hkinds table htable, fun _ _ => nofun, fun _ _ => nofun,
        fun _ _ => nofun, fun _ _ => nofun⟩
    · exact Options.accounts_of_provides hdeclaration hprovides

/-- Consistent tables are the acceptable ones. -/
theorem consistent_iff_acceptable : Consistent tables options ↔ Acceptable tables options := by
  have hlanguage : ∀ table, (∃ macros, Draft.macrosOf table = .ok macros) →
      table.language = ⟨table.game, table.macroTable⟩ := by
    rintro table ⟨macros, hmacros⟩
    exact Draft.language_eq_of_macrosOf hmacros
  constructor
  · intro hconsistent
    have hlanguages := fun table htable => hlanguage table (hconsistent.macros table htable)
    have hfits := GameTable.forall_allDeclarations_iff.mp hconsistent.fits
    have htargets := GameTable.forall_targets_iff.mp hconsistent.targets
    have hreadable := fun table htable =>
      (GameTable.forall_fits_iff (hlanguages table htable)).mp (hfits table htable).1
    have hmentions := (GameTable.forall_mentions_iff hlanguages hreadable).mp hconsistent.mentions
    obtain ⟨hareas, hchecks, hstones⟩ := GameTable.nodup_sites_iff.mp hconsistent.distinct
    constructor
    case headers =>
      intro table htable
      obtain ⟨macros, hmacros⟩ := hconsistent.macros table htable
      exact (Draft.macrosOf_eq_ok_iff.mp hmacros).1
    case macros =>
      intro table htable
      obtain ⟨macros, hmacros⟩ := hconsistent.macros table htable
      exact (Draft.macrosOf_eq_ok_iff.mp hmacros).2.1
    case requirements => exact hreadable
    case areas => exact hareas
    case checks => exact hchecks
    case stones => exact hstones
    case pool =>
      intro table htable check hcheck
      exact (RawCheck.suitsType_iff _).mpr ((hfits table htable).2.2.1 check hcheck)
    case locations =>
      exact fun table htable entry hentry => ((htargets table htable).1 entry hentry).1
    case exits =>
      exact fun table htable entry hentry => ((htargets table htable).1 entry hentry).2.1
    case gossips =>
      exact fun table htable entry hentry => ((htargets table htable).1 entry hentry).2.2
    case starts => exact fun table htable => (htargets table htable).2
    case items =>
      intro table htable text htext name hname
      exact GameTable.exists_item_iff.mp (hmentions table htable text htext _ hname)
    case events =>
      intro table htable text htext name hname
      exact GameTable.exists_event_iff.mp (hmentions table htable text htext _ hname)
    case settings =>
      intro table htable text htext key hkey
      exact hmentions table htable text htext _ hkey
  · intro hacceptable
    have hmacros : ∀ table ∈ tables, ∃ macros, Draft.macrosOf table = .ok macros :=
      fun table htable => ⟨_, Draft.macrosOf_eq_ok_iff.mpr
        ⟨hacceptable.headers table htable, hacceptable.macros table htable, rfl⟩⟩
    have hlanguages := fun table htable => hlanguage table (hmacros table htable)
    constructor
    case macros => exact hmacros
    case fits =>
      rw [GameTable.forall_allDeclarations_iff]
      intro table htable
      have hareas := (GameTable.forall_fits_iff (hlanguages table htable)).mpr
        (hacceptable.requirements table htable)
      exact ⟨hareas, fun _ _ => trivial,
        fun check hcheck => (RawCheck.suitsType_iff _).mp (hacceptable.pool table htable check hcheck),
        fun _ _ => trivial, fun _ _ => trivial⟩
    case distinct =>
      exact GameTable.nodup_sites_iff.mpr
        ⟨hacceptable.areas, hacceptable.checks, hacceptable.stones⟩
    case targets =>
      apply GameTable.forall_targets_iff.mpr
      intro table htable
      constructor
      · intro entry hentry
        exact ⟨hacceptable.locations table htable entry hentry,
          hacceptable.exits table htable entry hentry,
          hacceptable.gossips table htable entry hentry⟩
      · exact hacceptable.starts table htable
    case mentions =>
      apply (GameTable.forall_mentions_iff hlanguages hacceptable.requirements).mpr
      intro table htable text htext name hname
      cases name with
      | item name =>
          exact GameTable.exists_item_iff.mpr (hacceptable.items table htable text htext name hname)
      | event name =>
          exact GameTable.exists_event_iff.mpr
            (hacceptable.events table htable text htext name hname)
      | setting key => exact hacceptable.settings table htable text htext key hname

/-- A world is built from the acceptable tables, and from no others. -/
theorem World.build_accepts (tables : List GameTable) (options : Options)
    (constraint : String → Constraint) :
    (∃ world, (World.build tables options constraint).result = .ok world) ↔
      Acceptable tables options := by
  rw [World.exists_build_iff, consistent_iff_acceptable]

end Accounts

end SeedLogic
