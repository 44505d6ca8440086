import SeedLogic.Proofs.World.Reading

/-!
# Declarations

A table is a list of declarations, of which each loads one thing: an area, an item, a check,
a hint stone or a start area.  Loading tables is loading their declarations one by one
(`loadAll_eq_ok_iff`).  That succeeds when every declaration fits by itself and no two
describe the same place (`exists_foldlM_declare_iff`), and then the draft records what they
say and nothing else (`Records.declareAll`).
-/

namespace SeedLogic

/-- A place that tables describe and refer to, by its full name. -/
inductive Site where
  | area (name : String)
  | check (name : String)
  | stone (name : String)
  deriving DecidableEq

/-- One entry of a table.  Items and start areas are given by their full names. -/
inductive Declaration where
  | area (language : Language) (entry : String × RawArea)
  | item (name : String)
  | check (game : Game) (raw : RawCheck)
  | stone (game : Game) (entry : String × GossipKind)
  | start (name : String)

namespace Declaration

/-- The place that is described. -/
def site? : Declaration → Option Site
  | .area language entry => some (.area (language.game.placeName entry.1))
  | .check game raw => some (.check (game.placeName raw.location))
  | .stone game entry => some (.stone (game.placeName entry.1))
  | .item _ | .start _ => none

/-- The places that are referred to. -/
def targets : Declaration → List Site
  | .area language entry =>
      (entry.2.locations.keys.map fun name => .check (language.game.placeName name)) ++
        (entry.2.exits.keys.map fun name => .area (language.game.placeName name)) ++
        entry.2.gossip.keys.map fun name => .stone (language.game.placeName name)
  | .start name => [.area name]
  | .item _ | .check _ _ | .stone _ _ => []

/-- The items that are declared and the events that are defined. -/
def provides : Declaration → List Mention
  | .area language entry =>
      entry.2.events.keys.map fun name => .event (language.game.symbolName name)
  | .item name => [.item name]
  | .check game raw => [.item (game.symbolName raw.item)]
  | .stone _ _ | .start _ => []

/-- The texts of an area mention a name. -/
def TextsMention : Declaration → Mention → Prop
  | .area language entry, name => Draft.Mentioned language entry.2.texts name
  | .item _, _ | .check _ _, _ | .stone _ _, _ | .start _, _ => False

/-- A name is mentioned: in a text, or because it is provided. -/
def Mentions (declaration : Declaration) (name : Mention) : Prop :=
  declaration.TextsMention name ∨ name ∈ declaration.provides

/-- The texts of an area say something, and the identification of a check suits its type. -/
def Fits : Declaration → Prop
  | .area language entry => ∀ text ∈ entry.2.texts, language.Readable text.2
  | .check game raw => ∃ kind, Draft.checkKind (game.placeName raw.location) raw = .ok kind
  | .item _ | .stone _ _ | .start _ => True

end Declaration

/-! ## Tables -/

namespace GameTable

/-- The language of a table, without macros if they are not well-formed. -/
def language (table : GameTable) : Language :=
  ⟨table.game, (Draft.macrosOf table).toOption.getD .empty⟩

/-- The entries of a table, in the order in which they are loaded. -/
def declarations (table : GameTable) : List Declaration :=
  table.areas.entries.map (.area table.language) ++
    (table.items.map fun name => .item (table.game.symbolName name)) ++
    table.pool.map (.check table.game) ++ table.gossip.entries.map (.stone table.game) ++
    table.start.map fun name => .start (table.game.placeName name)

end GameTable

namespace Draft

variable {constraint : String → Constraint} {draft next : Draft}

/-- Load one entry of a table. -/
def declare (constraint : String → Constraint) (draft : Draft) :
    Declaration → Except LogicError Draft
  | .area language entry => loadArea language.game language.macros draft entry
  | .item name => .ok (draft.declareItem name)
  | .check game raw => loadCheck game constraint draft raw
  | .stone game entry => loadGossip game draft entry
  | .start name => .ok { draft with starts := draft.starts ++ [name] }

theorem foldlM_declare_items (full : String → String) (names : List String) :
    names.foldlM (fun draft name => declare constraint draft (.item (full name))) draft =
      .ok ((names.map full).foldl declareItem draft) := by
  induction names generalizing draft with
  | nil => rfl
  | cons name names ih => exact ih

theorem foldlM_declare_starts (full : String → String) (names : List String) :
    names.foldlM (fun draft name => declare constraint draft (.start (full name))) draft =
      .ok { draft with starts := draft.starts ++ names.map full } := by
  induction names generalizing draft with
  | nil => simp [pure, Except.pure]
  | cons name names ih =>
      have hrest := @ih { draft with starts := draft.starts ++ [full name] }
      rwa [List.append_assoc] at hrest

/-- A table is loaded entry by entry. -/
theorem load_eq {table : GameTable} {macros : MacroTable}
    (hmacros : macrosOf table = .ok macros) :
    draft.load constraint table = table.declarations.foldlM (declare constraint) draft := by
  have hlanguage : table.language = ⟨table.game, macros⟩ := by
    simp [GameTable.language, hmacros, Except.toOption]
  rw [GameTable.declarations, hlanguage]
  simp only [List.foldlM_append, bind_assoc, List.foldlM_map, foldlM_declare_items,
    foldlM_declare_starts]
  unfold load
  rw [hmacros]
  rfl

/-- Tables are loaded when their macros are well-formed, and then entry by entry. -/
theorem loadAll_eq_ok_iff {tables : List GameTable} :
    (loadAll constraint draft tables).result = .ok next ↔
      (∀ table ∈ tables, ∃ macros, macrosOf table = .ok macros) ∧
        (tables.flatMap GameTable.declarations).foldlM (declare constraint) draft = .ok next := by
  induction tables generalizing draft with
  | nil => simp [loadAll, pure, Except.pure]
  | cons table tables ih =>
      rw [List.forall_mem_cons, List.flatMap_cons, List.foldlM_append, Outcome.bind_eq_ok]
      simp only [loadAll, Recorded.result_bind, Recorded.result_lift, Recorded.result_note]
      rw [Outcome.bind_eq_ok]
      constructor
      · rintro ⟨middle, hload, hrest⟩
        rcases Outcome.bind_eq_ok.mp hload with ⟨macros, hmacros, -⟩
        rcases ih.mp hrest with ⟨hall, hdeclared⟩
        exact ⟨⟨⟨macros, hmacros⟩, hall⟩, middle, load_eq hmacros ▸ hload, hdeclared⟩
      · rintro ⟨⟨⟨macros, hmacros⟩, hall⟩, middle, hload, hrest⟩
        exact ⟨middle, (load_eq hmacros).trans hload, ih.mpr ⟨hall, hrest⟩⟩

end Draft

/-! ## What a draft holds -/

/-- The places that a draft of an area leads to. -/
def AreaDraft.targets (area : AreaDraft) : List Site :=
  (area.locations.map fun gate => .check gate.target) ++
    (area.exits.map fun gate => .area gate.target) ++
    area.gossips.map fun gate => .stone gate.target

namespace Draft

/-- The places that are described. -/
def sites (draft : Draft) : List Site :=
  (draft.areas.map fun area => .area area.name) ++
    (draft.checks.map fun check => .check check.name) ++
    draft.gossips.map fun gossip => .stone gossip.name

theorem area_mem_sites_iff {draft : Draft} {name : String} :
    .area name ∈ draft.sites ↔ name ∈ draft.areas.map AreaDraft.name := by
  simp [sites]

theorem check_mem_sites_iff {draft : Draft} {name : String} :
    .check name ∈ draft.sites ↔ name ∈ draft.checks.map Check.name := by
  simp [sites]

theorem stone_mem_sites_iff {draft : Draft} {name : String} :
    .stone name ∈ draft.sites ↔ name ∈ draft.gossips.map GossipStone.name := by
  simp [sites]

/-- The places that are referred to. -/
def targets (draft : Draft) : List Site :=
  draft.areas.flatMap AreaDraft.targets ++ draft.starts.map .area

/-- The items that are declared and the events that are defined. -/
def provided (draft : Draft) : List Mention :=
  draft.declaredItems.map .item ++ draft.definedEvents.map .event

/-- A draft takes up what a declaration says, and nothing else. -/
structure Takes (draft : Draft) (declaration : Declaration) (next : Draft) : Prop where
  sites : ∀ site, site ∈ next.sites ↔ site ∈ draft.sites ∨ declaration.site? = some site
  targets : ∀ site, site ∈ next.targets ↔ site ∈ draft.targets ∨ site ∈ declaration.targets
  provided : ∀ name, name ∈ next.provided ↔ name ∈ draft.provided ∨ name ∈ declaration.provides
  knows : ∀ name, next.symbols.Knows name ↔
    draft.symbols.Knows name ∨ declaration.Mentions name
  starts : ∀ name, name ∈ next.starts ↔ name ∈ draft.starts ∨ declaration = .start name
  symbols : next.symbols.Extends draft.symbols
  kept : ∀ area ∈ draft.areas, area ∈ next.areas
  areas : ∀ area ∈ next.areas, area ∈ draft.areas ∨
    ∃ language entry, declaration = .area language entry ∧
      area.Follows language next.symbols entry
  described : ∀ {language entry}, declaration = .area language entry →
    ∃ area ∈ next.areas, area.Follows language next.symbols entry

end Draft

theorem Draft.map_target_of_follows {language : Language} {symbols : Symbols}
    {entries : List (String × String)} {gates : List NamedGate}
    (hfollows : List.Forall₂ (PlaceFollows language symbols) entries gates) :
    gates.map NamedGate.target = entries.map fun entry => language.game.placeName entry.1 := by
  induction hfollows with
  | nil => rfl
  | cons hfirst _ ih => rw [List.map_cons, List.map_cons, hfirst.target, ih]

/-- An area leads to the places that its entry refers to. -/
theorem AreaDraft.Follows.targets_eq {language : Language} {symbols : Symbols}
    {entry : String × RawArea} {area : AreaDraft}
    (hfollows : area.Follows language symbols entry) :
    area.targets = (Declaration.area language entry).targets := by
  have hlocations := congrArg (List.map Site.check) (Draft.map_target_of_follows hfollows.locations)
  have hexits := congrArg (List.map Site.area) (Draft.map_target_of_follows hfollows.exits)
  have hgossips := congrArg (List.map Site.stone) (Draft.map_target_of_follows hfollows.gossips)
  simp only [List.map_map, Function.comp_def] at hlocations hexits hgossips
  simp only [AreaDraft.targets, Declaration.targets, Dict.keys, List.map_map, Function.comp_def,
    hlocations, hexits, hgossips]

namespace Draft

variable {constraint : String → Constraint} {draft next : Draft}

/-! ## Loading one entry -/

theorem takes_area {language : Language} {entry : String × RawArea}
    (hload : loadArea language.game language.macros draft entry = .ok next) :
    draft.Takes (.area language entry) next := by
  rcases loadArea_follows hload with ⟨area, symbols, hfollows, hextends, hknows, rfl⟩
  constructor
  · intro site
    simp [sites, Declaration.site?, hfollows.name, or_comm, or_left_comm, eq_comm]
  · intro site
    simp [targets, hfollows.targets_eq, or_assoc, or_comm]
  · intro name
    simp [provided, Declaration.provides, or_assoc]
  · intro name
    simp [hknows, Declaration.Mentions, Declaration.TextsMention, Declaration.provides, Dict.keys,
      eq_comm]
  · simp
  · exact hextends
  · exact fun area harea => List.mem_append_left _ harea
  · intro other hother
    rcases List.mem_append.mp hother with hold | hnew
    · exact .inl hold
    · exact .inr ⟨language, entry, rfl, List.mem_singleton.mp hnew ▸ hfollows⟩
  · intro _ _ heq
    cases heq
    exact ⟨area, List.mem_append_right _ List.mem_cons_self, hfollows⟩

theorem takes_item (name : String) : draft.Takes (.item name) (draft.declareItem name) := by
  constructor
  · simp [sites, declareItem, Declaration.site?]
  · simp [targets, declareItem, Declaration.targets]
  · simp [provided, declareItem, Declaration.provides, or_assoc, or_comm]
  · simp [declareItem, Symbols.knows_mention_iff, Declaration.Mentions,
      Declaration.TextsMention, Declaration.provides]
  · simp [declareItem]
  · exact draft.symbols.extends_mention (.item _)
  · exact fun _ => id
  · exact fun _ => .inl
  · intro _ _ heq
    cases heq

theorem takes_check {game : Game} {raw : RawCheck}
    (hload : loadCheck game constraint draft raw = .ok next) :
    draft.Takes (.check game raw) next := by
  rcases loadCheck_eq_ok_iff.mp hload with ⟨-, kind, -, rfl⟩
  constructor
  · simp [sites, declareItem, Declaration.site?, or_comm, or_left_comm, eq_comm]
  · simp [targets, declareItem, Declaration.targets]
  · simp [provided, declareItem, Declaration.provides, or_assoc, or_comm]
  · simp [declareItem, Symbols.knows_mention_iff, Declaration.Mentions,
      Declaration.TextsMention, Declaration.provides]
  · simp [declareItem]
  · exact draft.symbols.extends_mention (.item _)
  · exact fun _ => id
  · exact fun _ => .inl
  · intro _ _ heq
    cases heq

theorem takes_stone {game : Game} {entry : String × GossipKind}
    (hload : loadGossip game draft entry = .ok next) : draft.Takes (.stone game entry) next := by
  rcases loadGossip_eq_ok_iff.mp hload with ⟨-, rfl⟩
  constructor
  · simp [sites, Declaration.site?, or_assoc, eq_comm]
  · simp [targets, Declaration.targets]
  · simp [provided, Declaration.provides]
  · simp [Declaration.Mentions, Declaration.TextsMention, Declaration.provides]
  · simp
  · exact .refl _
  · exact fun _ => id
  · exact fun _ => .inl
  · intro _ _ heq
    cases heq

theorem takes_start (name : String) :
    draft.Takes (.start name) { draft with starts := draft.starts ++ [name] } := by
  constructor
  · simp [sites, Declaration.site?]
  · simp [targets, Declaration.targets, or_assoc, eq_comm]
  · simp [provided, Declaration.provides]
  · simp [Declaration.Mentions, Declaration.TextsMention, Declaration.provides]
  · simp [eq_comm]
  · exact .refl _
  · exact fun _ => id
  · exact fun _ => .inl
  · intro _ _ heq
    cases heq

/-- Loading an entry takes up what it says. -/
theorem takes_of_declare {declaration : Declaration}
    (hload : declare constraint draft declaration = .ok next) :
    draft.Takes declaration next := by
  cases declaration with
  | area language entry => exact takes_area hload
  | item name =>
      cases hload
      exact takes_item name
  | check game raw => exact takes_check hload
  | stone game entry => exact takes_stone hload
  | start name =>
      cases hload
      exact takes_start name

/-- An entry is loaded when it fits and describes no place that is described already. -/
theorem exists_declare_iff {declaration : Declaration} :
    (∃ next, declare constraint draft declaration = .ok next) ↔
      declaration.Fits ∧ ∀ site, declaration.site? = some site → site ∉ draft.sites := by
  cases declaration with
  | area language entry =>
      rw [declare, exists_loadArea_iff]
      simp [Declaration.Fits, Declaration.site?, sites]
  | item name => simp [declare, Declaration.Fits, Declaration.site?]
  | check game raw =>
      simp only [declare, loadCheck_eq_ok_iff, Declaration.Fits, Declaration.site?]
      simp [sites, and_comm]
  | stone game entry =>
      simp only [declare, loadGossip_eq_ok_iff, Declaration.Fits, Declaration.site?]
      simp [sites]
  | start name => simp [declare, Declaration.Fits, Declaration.site?]

/-! ## Loading all entries -/

/-- A draft holds what some declarations say, and nothing else. -/
structure Records (declared : List Declaration) (draft : Draft) : Prop where
  sites : ∀ site, site ∈ draft.sites ↔
    ∃ declaration ∈ declared, declaration.site? = some site
  targets : ∀ site, site ∈ draft.targets ↔ ∃ declaration ∈ declared, site ∈ declaration.targets
  provided : ∀ name, name ∈ draft.provided ↔
    ∃ declaration ∈ declared, name ∈ declaration.provides
  knows : ∀ name, draft.symbols.Knows name ↔
    ∃ declaration ∈ declared, declaration.Mentions name
  starts : ∀ name, name ∈ draft.starts ↔ .start name ∈ declared
  areas : ∀ area ∈ draft.areas, ∃ language entry, .area language entry ∈ declared ∧
    area.Follows language draft.symbols entry
  described : ∀ {language entry}, .area language entry ∈ declared →
    ∃ area ∈ draft.areas, area.Follows language draft.symbols entry

theorem records_empty : empty.Records [] := by
  constructor
  · simp [sites, empty]
  · simp [targets, empty]
  · simp [provided, empty]
  · intro name
    cases name <;> simp [empty, Symbols.empty, Symbols.Knows]
  · simp [empty]
  · simp [empty]
  · intro _ _ hmem
    cases hmem

theorem Records.take {declared : List Declaration} {declaration : Declaration}
    (hrecords : draft.Records declared) (htakes : draft.Takes declaration next) :
    next.Records (declared ++ [declaration]) := by
  constructor
  · intro site
    simp [htakes.sites, hrecords.sites, or_and_right, exists_or]
  · intro site
    simp [htakes.targets, hrecords.targets, or_and_right, exists_or]
  · intro name
    simp [htakes.provided, hrecords.provided, or_and_right, exists_or]
  · intro name
    simp [htakes.knows, hrecords.knows, or_and_right, exists_or]
  · intro name
    simp [htakes.starts, hrecords.starts, eq_comm]
  · intro area harea
    rcases htakes.areas area harea with hold | ⟨language, entry, rfl, hfollows⟩
    · rcases hrecords.areas area hold with ⟨language, entry, hentry, hfollows⟩
      exact ⟨language, entry, List.mem_append_left _ hentry, hfollows.extend htakes.symbols⟩
    · exact ⟨language, entry, List.mem_append_right _ List.mem_cons_self, hfollows⟩
  · intro language entry hentry
    rcases List.mem_append.mp hentry with hold | hnew
    · rcases hrecords.described hold with ⟨area, harea, hfollows⟩
      exact ⟨area, htakes.kept area harea, hfollows.extend htakes.symbols⟩
    · exact htakes.described (List.mem_singleton.mp hnew).symm

/-- Once entries have been loaded, the draft holds them too. -/
theorem Records.declareAll {declared more : List Declaration}
    (hrecords : draft.Records declared)
    (hload : more.foldlM (declare constraint) draft = .ok next) :
    next.Records (declared ++ more) := by
  induction more generalizing draft declared with
  | nil =>
      cases hload
      rwa [List.append_nil]
  | cons declaration more ih =>
      rw [List.foldlM_cons] at hload
      rcases Outcome.bind_eq_ok.mp hload with ⟨middle, hfirst, hrest⟩
      have hall := ih (hrecords.take (takes_of_declare hfirst)) hrest
      rwa [List.append_assoc] at hall

/-- Entries are loaded when each of them fits and each describes a place of its own, which
is not described already. -/
theorem exists_foldlM_declare_iff {more : List Declaration} :
    (∃ next, more.foldlM (declare constraint) draft = .ok next) ↔
      (∀ declaration ∈ more, declaration.Fits) ∧ (more.filterMap Declaration.site?).Nodup ∧
        ∀ site ∈ more.filterMap Declaration.site?, site ∉ draft.sites := by
  induction more generalizing draft with
  | nil => exact ⟨fun _ => ⟨nofun, List.nodup_nil, nofun⟩, fun _ => ⟨draft, rfl⟩⟩
  | cons declaration more ih =>
      rw [List.foldlM_cons, List.forall_mem_cons]
      constructor
      · rintro ⟨next, hload⟩
        rcases Outcome.bind_eq_ok.mp hload with ⟨middle, hfirst, hrest⟩
        have htakes := takes_of_declare hfirst
        rcases exists_declare_iff.mp ⟨middle, hfirst⟩ with ⟨hfits, hnew⟩
        rcases ih.mp ⟨next, hrest⟩ with ⟨hall, hnodup, hfresh⟩
        have hold : ∀ site ∈ more.filterMap Declaration.site?, site ∉ draft.sites :=
          fun site hsite hmem => hfresh site hsite ((htakes.sites site).mpr (.inl hmem))
        refine ⟨⟨hfits, hall⟩, ?_⟩
        cases hdescribed : declaration.site? with
        | none =>
            rw [List.filterMap_cons_none hdescribed]
            exact ⟨hnodup, hold⟩
        | some site =>
            rw [List.filterMap_cons_some hdescribed, List.nodup_cons, List.forall_mem_cons]
            have hown : site ∉ more.filterMap Declaration.site? :=
              fun hsite => hfresh site hsite ((htakes.sites site).mpr (.inr hdescribed))
            exact ⟨⟨hown, hnodup⟩, hnew site hdescribed, hold⟩
      · rintro ⟨⟨hfits, hall⟩, hnodup, hfresh⟩
        have hnew : ∀ site, declaration.site? = some site → site ∉ draft.sites ∧
            site ∉ more.filterMap Declaration.site? := by
          intro site hdescribed
          rw [List.filterMap_cons_some hdescribed] at hnodup hfresh
          exact ⟨hfresh site List.mem_cons_self, (List.nodup_cons.mp hnodup).1⟩
        rcases exists_declare_iff.mpr ⟨hfits, fun site hsite => (hnew site hsite).1⟩ with
          ⟨middle, hfirst⟩
        have htakes := takes_of_declare hfirst
        have hrest : ∃ next, more.foldlM (declare constraint) middle = .ok next := by
          refine ih.mpr ⟨hall, hnodup.sublist ?_, fun site hsite hmem => ?_⟩
          · exact (List.sublist_cons_self declaration more).filterMap _
          · rcases (htakes.sites site).mp hmem with hold | hdescribed
            · refine hfresh site ?_ hold
              exact ((List.sublist_cons_self declaration more).filterMap _).subset hsite
            · exact (hnew site hdescribed).2 hsite
        rcases hrest with ⟨next, hrest⟩
        exact ⟨next, Outcome.bind_eq_ok.mpr ⟨middle, hfirst, hrest⟩⟩

end Draft

end SeedLogic
