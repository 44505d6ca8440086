import SeedLogic.Proofs.World.Coherence

/-!
# Reading the areas of a table

The texts of a table are read in the language of its game and its macros.  An area that is
read follows its entry in the table: it leads to the same names, by what the texts say over
the numbers of the symbols (`AreaDraft.Follows`).  More symbols change nothing about that
(`Follows.extend`).  Reading numbers the names that the texts mention and those of the
events, and no others (`loadArea_follows`), and it fails only for an unreadable text
(`exists_loadArea_iff`).
-/

namespace SeedLogic

/-! ## Numbered names -/

namespace Symbols

variable {symbols : Symbols} {entry other : Mention}

theorem knows_mention_iff :
    (symbols.mention entry).Knows other ↔ symbols.Knows other ∨ other = entry := by
  cases entry <;> cases other <;> simp [mention, Knows]

/-- Mentions number their names, and no others. -/
theorem knows_mentionAll_iff {mentions : List Mention} :
    (symbols.mentionAll mentions).Knows other ↔ symbols.Knows other ∨ other ∈ mentions := by
  induction mentions generalizing symbols with
  | nil => simp
  | cons first rest ih => rw [mentionAll_cons, ih, knows_mention_iff, List.mem_cons, or_assoc]

end Symbols

namespace Formula

variable {later earlier : Symbols}

theorem Known.extend (hextends : later.Extends earlier) {formula : Formula}
    (hknown : formula.Known earlier) : formula.Known later :=
  fun entry hentry => hextends.knows (hknown entry hentry)

mutual

/-- More names do not change what a formula compiles to. -/
theorem compile_eq_of_extends (hextends : later.Extends earlier) :
    ∀ formula : Formula, formula.Known earlier →
      formula.compile later = formula.compile earlier
  | .const value, _ => by rw [compile, compile]
  | .item name count, hknown => by
      have hmem : name ∈ earlier.items.keys := hknown (.item name) (by simp [mentions])
      rw [compile, compile, NameTable.idOf_eq_of_isPrefix hextends.items hmem]
  | .event name, hknown => by
      have hmem : name ∈ earlier.events.keys := hknown (.event name) (by simp [mentions])
      rw [compile, compile, NameTable.idOf_eq_of_isPrefix hextends.events hmem]
  | .setting key, hknown => by
      have hmem : key ∈ earlier.settings.keys := hknown (.setting key) (by simp [mentions])
      rw [compile, compile, NameTable.idOf_eq_of_isPrefix hextends.settings hmem]
  | .not operand, hknown => by
      rw [compile, compile, compile_eq_of_extends hextends operand hknown]
  | .all operands, hknown => by
      rw [compile, compile, compileAll_eq_of_extends hextends operands hknown]
  | .any operands, hknown => by
      rw [compile, compile, compileAll_eq_of_extends hextends operands hknown]
  | .atLeast count operands, hknown => by
      rw [compile, compile, compileAll_eq_of_extends hextends operands hknown]

theorem compileAll_eq_of_extends (hextends : later.Extends earlier) :
    ∀ operands : List Formula, (∀ entry ∈ mentionsOfAll operands, earlier.Knows entry) →
      compileAll later operands = compileAll earlier operands
  | [], _ => by rw [compileAll, compileAll]
  | operand :: operands, hknown => by
      rw [mentionsOfAll, List.forall_mem_append] at hknown
      rw [compileAll, compileAll, compile_eq_of_extends hextends operand hknown.1,
        compileAll_eq_of_extends hextends operands hknown.2]

end

end Formula

/-! ## The language of a table -/

/-- What the texts of a table are read by: its game and its macros. -/
structure Language where
  game : Game
  macros : MacroTable

namespace Language

/-- A text says a formula. -/
def Reads (language : Language) (text : String) (formula : Formula) : Prop :=
  (Grammar.ofMacros language.game language.macros maxMacroDepth).Spells text formula

/-- A text says something. -/
def Readable (language : Language) (text : String) : Prop :=
  ∃ formula, language.Reads text formula

/-- A name occurs in what a text says. -/
def Mentions (language : Language) (text : String) (entry : Mention) : Prop :=
  ∃ formula, language.Reads text formula ∧ entry ∈ formula.mentions

/-- A requirement is what a text says, over the numbers of symbols. -/
def Renders (language : Language) (symbols : Symbols) (text : String)
    (requirement : Requirement) : Prop :=
  ∃ formula, language.Reads text formula ∧ formula.Known symbols ∧
    requirement = formula.compile symbols

variable {language : Language} {symbols later earlier : Symbols} {text : String}
  {requirement : Requirement}

theorem Reads.unique {formula other : Formula} (hformula : language.Reads text formula)
    (hother : language.Reads text other) : formula = other :=
  Grammar.Spells.unique (Grammar.describes_ofMacros _ _ _) hformula hother

theorem Renders.extend (hextends : later.Extends earlier)
    (hrenders : language.Renders earlier text requirement) :
    language.Renders later text requirement := by
  rcases hrenders with ⟨formula, hreads, hknown, rfl⟩
  exact ⟨formula, hreads, hknown.extend hextends,
    (Formula.compile_eq_of_extends hextends formula hknown).symm⟩

end Language

/-! ## Requirements -/

namespace Draft

variable {language : Language} {symbols later : Symbols} {entries : List (String × String)}

theorem readRequirement_eq_ok_iff {text : String} {requirement : Requirement} :
    readRequirement language.game language.macros symbols text = .ok (requirement, later) ↔
      ∃ formula, language.Reads text formula ∧ later = symbols.mentionAll formula.mentions ∧
        requirement = formula.compile later := by
  have hparse : Requirement.parse language.game language.macros symbols text =
      (.ok requirement, later) ↔ _ :=
    Requirement.parse_eq_ok_iff (Grammar.describes_ofMacros language.game language.macros _)
  unfold Language.Reads
  rw [← hparse]
  unfold readRequirement
  rcases Requirement.parse language.game language.macros symbols text with ⟨result, symbols'⟩
  cases result <;> simp

/-- A requirement is read when its text says something. -/
theorem exists_readRequirement_iff {text : String} :
    (∃ outcome, readRequirement language.game language.macros symbols text = .ok outcome) ↔
      language.Readable text := by
  constructor
  · rintro ⟨⟨requirement, later⟩, hread⟩
    rcases readRequirement_eq_ok_iff.mp hread with ⟨formula, hreads, -, -⟩
    exact ⟨formula, hreads⟩
  · rintro ⟨formula, hreads⟩
    exact ⟨_, readRequirement_eq_ok_iff.mpr ⟨formula, hreads, rfl, rfl⟩⟩

/-- Reading a requirement numbers what its text mentions. -/
theorem readRequirement_renders {text : String} {requirement : Requirement}
    (hread : readRequirement language.game language.macros symbols text =
      .ok (requirement, later)) :
    language.Renders later text requirement ∧
      ∀ entry, later.Knows entry ↔ symbols.Knows entry ∨ language.Mentions text entry := by
  rcases readRequirement_eq_ok_iff.mp hread with ⟨formula, hreads, rfl, rfl⟩
  constructor
  · exact ⟨formula, hreads, fun entry hentry => symbols.knows_mentionAll hentry, rfl⟩
  · intro entry
    rw [Symbols.knows_mentionAll_iff]
    constructor
    · rintro (hold | hnew)
      · exact .inl hold
      · exact .inr ⟨formula, hreads, hnew⟩
    · rintro (hold | ⟨other, hother, hnew⟩)
      · exact .inl hold
      · exact .inr (hreads.unique hother ▸ hnew)

/-! ## Places -/

/-- A gate leads to the place of an entry, by what the text of the entry says. -/
structure PlaceFollows (language : Language) (symbols : Symbols) (entry : String × String)
    (gate : NamedGate) : Prop where
  target : gate.target = language.game.placeName entry.1
  requirement : language.Renders symbols entry.2 gate.requirement

/-- The texts of some entries mention a name. -/
def Mentioned (language : Language) (entries : List (String × String)) (name : Mention) : Prop :=
  ∃ entry ∈ entries, language.Mentions entry.2 name

theorem PlaceFollows.extend {earlier : Symbols} (hextends : later.Extends earlier)
    {entry : String × String} {gate : NamedGate}
    (hfollows : PlaceFollows language earlier entry gate) :
    PlaceFollows language later entry gate :=
  ⟨hfollows.target, hfollows.requirement.extend hextends⟩

theorem mentioned_cons_iff {entry : String × String} {name : Mention} :
    Mentioned language (entry :: entries) name ↔
      language.Mentions entry.2 name ∨ Mentioned language entries name := by
  simp [Mentioned]

theorem mentioned_append_iff {others : List (String × String)} {name : Mention} :
    Mentioned language (entries ++ others) name ↔
      Mentioned language entries name ∨ Mentioned language others name := by
  simp only [Mentioned, List.mem_append, or_and_right, exists_or]

/-- Entries that are read one after the other are read when all their texts say something. -/
theorem exists_readInTurn_iff {γ : Type}
    {read : Symbols → List (String × String) → Except LogicError γ}
    (next : String × String → Symbols → Symbols)
    (make : String × String → Requirement × Symbols → γ → γ)
    (hnil : ∀ symbols, ∃ outcome, read symbols [] = .ok outcome)
    (hcons : ∀ symbols entry entries, read symbols (entry :: entries) = (do
      let first ← readRequirement language.game language.macros symbols entry.2
      let others ← read (next entry first.2) entries
      .ok (make entry first others))) :
    (∃ outcome, read symbols entries = .ok outcome) ↔
      ∀ entry ∈ entries, language.Readable entry.2 := by
  induction entries generalizing symbols with
  | nil => exact iff_of_true (hnil symbols) fun _ => nofun
  | cons entry entries ih =>
      rw [List.forall_mem_cons, ← exists_readRequirement_iff, hcons]
      constructor
      · rintro ⟨outcome, hread⟩
        rcases Outcome.bind_eq_ok.mp hread with ⟨first, hfirst, hrest⟩
        rcases Outcome.bind_eq_ok.mp hrest with ⟨others, hothers, -⟩
        exact ⟨⟨first, hfirst⟩, ih.mp ⟨others, hothers⟩⟩
      · rintro ⟨⟨first, hfirst⟩, hall⟩
        rcases ih.mpr hall with ⟨others, hothers⟩
        exact ⟨_, Outcome.bind_eq_ok.mpr ⟨first, hfirst,
          Outcome.bind_eq_ok.mpr ⟨others, hothers, rfl⟩⟩⟩

/-- Places are read when all their texts say something. -/
theorem exists_readPlaces_iff :
    (∃ outcome, readPlaces language.game language.macros symbols entries = .ok outcome) ↔
      ∀ entry ∈ entries, language.Readable entry.2 :=
  exists_readInTurn_iff (fun _ middle => middle)
    (fun entry first others =>
      (⟨language.game.placeName entry.1, first.1⟩ :: others.1, others.2))
    (fun _ => ⟨_, rfl⟩) fun _ _ _ => rfl

/-- Places that are read follow their entries. -/
theorem readPlaces_follows {gates : List NamedGate}
    (hread : readPlaces language.game language.macros symbols entries = .ok (gates, later)) :
    List.Forall₂ (PlaceFollows language later) entries gates ∧
      ∀ name, later.Knows name ↔ symbols.Knows name ∨ Mentioned language entries name := by
  induction entries generalizing symbols gates with
  | nil =>
      cases hread
      exact ⟨.nil, by simp [Mentioned]⟩
  | cons entry entries ih =>
      rcases Outcome.bind_eq_ok.mp hread with ⟨⟨requirement, middle⟩, hfirst, hrest⟩
      rcases Outcome.bind_eq_ok.mp hrest with ⟨⟨others, last⟩, hothers, hresult⟩
      cases hresult
      rcases readRequirement_renders hfirst with ⟨hrenders, hknows⟩
      rcases ih hothers with ⟨hfollows, hlater⟩
      constructor
      · exact .cons ⟨rfl, hrenders.extend (extends_readPlaces hothers)⟩ hfollows
      · intro name
        rw [hlater, hknows, mentioned_cons_iff, or_assoc]

/-! ## Events -/

/-- A gate leads to the event of an entry, by what the text of the entry says. -/
structure EventFollows (language : Language) (symbols : Symbols) (entry : String × String)
    (gate : Gate) : Prop where
  target : symbols.events.keys[gate.target]? = some (language.game.symbolName entry.1)
  requirement : language.Renders symbols entry.2 gate.requirement

theorem EventFollows.extend {earlier : Symbols} (hextends : later.Extends earlier)
    {entry : String × String} {gate : Gate}
    (hfollows : EventFollows language earlier entry gate) :
    EventFollows language later entry gate :=
  ⟨getElem?_of_extends hextends hfollows.target, hfollows.requirement.extend hextends⟩

/-- Events are read when all their texts say something. -/
theorem exists_readEvents_iff :
    (∃ outcome, readEvents language.game language.macros symbols entries = .ok outcome) ↔
      ∀ entry ∈ entries, language.Readable entry.2 :=
  exists_readInTurn_iff
    (fun entry middle => middle.mention (.event (language.game.symbolName entry.1)))
    (fun entry first others =>
      let numbered := first.2.mention (.event (language.game.symbolName entry.1))
      (⟨numbered.events.idOf (language.game.symbolName entry.1), first.1⟩ :: others.1, others.2))
    (fun _ => ⟨_, rfl⟩) fun _ _ _ => rfl

/-- Events that are read follow their entries, and are numbered with what their texts
mention. -/
theorem readEvents_follows {gates : List Gate}
    (hread : readEvents language.game language.macros symbols entries = .ok (gates, later)) :
    List.Forall₂ (EventFollows language later) entries gates ∧
      ∀ name, later.Knows name ↔ symbols.Knows name ∨ Mentioned language entries name ∨
        ∃ entry ∈ entries, name = .event (language.game.symbolName entry.1) := by
  induction entries generalizing symbols gates with
  | nil =>
      cases hread
      exact ⟨.nil, by simp [Mentioned]⟩
  | cons entry entries ih =>
      rcases Outcome.bind_eq_ok.mp hread with ⟨⟨requirement, middle⟩, hfirst, hrest⟩
      rcases Outcome.bind_eq_ok.mp hrest with ⟨⟨others, last⟩, hothers, hresult⟩
      cases hresult
      rcases readRequirement_renders hfirst with ⟨hrenders, hknows⟩
      rcases ih hothers with ⟨hfollows, hlater⟩
      have hmention := middle.extends_mention (.event (language.game.symbolName entry.1))
      have hextends := (lt_size_of_readEvents hothers).1
      constructor
      · refine .cons ⟨getElem?_of_extends hextends ?_, ?_⟩ hfollows
        · exact NameTable.getElem?_idOf
            (middle.knows_mention (.event (language.game.symbolName entry.1)))
        · exact hrenders.extend (hextends.trans hmention)
      · intro name
        rw [hlater, Symbols.knows_mention_iff, hknows, mentioned_cons_iff]
        simp only [List.mem_cons, exists_eq_or_imp]
        tauto

/-! ## Areas -/

end Draft

/-- The texts of an area. -/
def RawArea.texts (area : RawArea) : List (String × String) :=
  area.locations.entries ++ area.exits.entries ++ area.events.entries ++ area.gossip.entries

/-- An area of a draft leads where an entry of a table says, by what the texts say. -/
structure AreaDraft.Follows (language : Language) (symbols : Symbols) (entry : String × RawArea)
    (area : AreaDraft) : Prop where
  name : area.name = language.game.placeName entry.1
  locations : List.Forall₂ (Draft.PlaceFollows language symbols) entry.2.locations.entries
    area.locations
  exits : List.Forall₂ (Draft.PlaceFollows language symbols) entry.2.exits.entries area.exits
  events : List.Forall₂ (Draft.EventFollows language symbols) entry.2.events.entries area.events
  gossips : List.Forall₂ (Draft.PlaceFollows language symbols) entry.2.gossip.entries area.gossips

theorem AreaDraft.Follows.extend {language : Language} {later earlier : Symbols}
    (hextends : later.Extends earlier) {entry : String × RawArea} {area : AreaDraft}
    (hfollows : area.Follows language earlier entry) : area.Follows language later entry := by
  constructor
  · exact hfollows.name
  · exact hfollows.locations.imp fun _ _ hplace => hplace.extend hextends
  · exact hfollows.exits.imp fun _ _ hplace => hplace.extend hextends
  · exact hfollows.events.imp fun _ _ hevent => hevent.extend hextends
  · exact hfollows.gossips.imp fun _ _ hplace => hplace.extend hextends

namespace Draft

variable {language : Language} {draft next : Draft} {entry : String × RawArea}

/-- An area is loaded when its name is new and all its texts are read, one list after the
other. -/
theorem loadArea_eq_ok_iff :
    loadArea language.game language.macros draft entry = .ok next ↔
      language.game.placeName entry.1 ∉ draft.areas.map AreaDraft.name ∧
      ∃ locations symbols₁ exits symbols₂ events symbols₃ gossips symbols₄,
        readPlaces language.game language.macros draft.symbols entry.2.locations.entries =
          .ok (locations, symbols₁) ∧
        readPlaces language.game language.macros symbols₁ entry.2.exits.entries =
          .ok (exits, symbols₂) ∧
        readEvents language.game language.macros symbols₂ entry.2.events.entries =
          .ok (events, symbols₃) ∧
        readPlaces language.game language.macros symbols₃ entry.2.gossip.entries =
          .ok (gossips, symbols₄) ∧
        next = { draft with
          symbols := symbols₄
          areas := draft.areas ++ [⟨language.game.placeName entry.1, language.game,
            entry.2.dungeon?.map language.game.placeName, locations, exits, events, gossips⟩]
          definedEvents :=
            draft.definedEvents ++ entry.2.events.keys.map language.game.symbolName } := by
  have hknown : (draft.areas.any fun other =>
      other.name == language.game.placeName entry.1) = true ↔
        language.game.placeName entry.1 ∈ draft.areas.map AreaDraft.name := by
    simp
  simp only [loadArea, ← hknown]
  constructor
  · intro hload
    split at hload
    case isTrue => cases hload
    case isFalse hnew =>
      rcases Outcome.bind_eq_ok.mp hload with ⟨⟨locations, symbols₁⟩, hlocations, hload⟩
      rcases Outcome.bind_eq_ok.mp hload with ⟨⟨exits, symbols₂⟩, hexits, hload⟩
      rcases Outcome.bind_eq_ok.mp hload with ⟨⟨events, symbols₃⟩, hevents, hload⟩
      rcases Outcome.bind_eq_ok.mp hload with ⟨⟨gossips, symbols₄⟩, hgossips, hload⟩
      cases hload
      exact ⟨hnew, _, _, _, _, _, _, _, _, hlocations, hexits, hevents, hgossips, rfl⟩
  · rintro ⟨hnew, _, _, _, _, _, _, _, _, hlocations, hexits, hevents, hgossips, rfl⟩
    rw [if_neg hnew]
    exact Outcome.bind_eq_ok.mpr ⟨_, hlocations, Outcome.bind_eq_ok.mpr ⟨_, hexits,
      Outcome.bind_eq_ok.mpr ⟨_, hevents, Outcome.bind_eq_ok.mpr ⟨_, hgossips, rfl⟩⟩⟩⟩

/-- An area is loaded when its name is new and all its texts say something. -/
theorem exists_loadArea_iff :
    (∃ next, loadArea language.game language.macros draft entry = .ok next) ↔
      (∀ text ∈ entry.2.texts, language.Readable text.2) ∧
        language.game.placeName entry.1 ∉ draft.areas.map AreaDraft.name := by
  simp only [loadArea_eq_ok_iff, RawArea.texts, List.forall_mem_append]
  constructor
  · rintro ⟨_, hnew, _, _, _, _, _, _, _, _, hlocations, hexits, hevents, hgossips, -⟩
    exact ⟨⟨⟨⟨exists_readPlaces_iff.mp ⟨_, hlocations⟩, exists_readPlaces_iff.mp ⟨_, hexits⟩⟩,
      exists_readEvents_iff.mp ⟨_, hevents⟩⟩, exists_readPlaces_iff.mp ⟨_, hgossips⟩⟩, hnew⟩
  · rintro ⟨⟨⟨⟨hlocations, hexits⟩, hevents⟩, hgossips⟩, hnew⟩
    rcases exists_readPlaces_iff.mpr hlocations with ⟨⟨locations, symbols₁⟩, hlocations⟩
    rcases exists_readPlaces_iff.mpr hexits with ⟨⟨exits, symbols₂⟩, hexits⟩
    rcases exists_readEvents_iff.mpr hevents with ⟨⟨events, symbols₃⟩, hevents⟩
    rcases exists_readPlaces_iff.mpr hgossips with ⟨⟨gossips, symbols₄⟩, hgossips⟩
    exact ⟨_, hnew, _, _, _, _, _, _, _, _, hlocations, hexits, hevents, hgossips, rfl⟩

/-- A loaded area follows its entry.  Its texts and its events number names, and nothing
else changes. -/
theorem loadArea_follows
    (hload : loadArea language.game language.macros draft entry = .ok next) :
    ∃ area symbols, area.Follows language symbols entry ∧ symbols.Extends draft.symbols ∧
      (∀ name, symbols.Knows name ↔ draft.symbols.Knows name ∨
        Mentioned language entry.2.texts name ∨
          ∃ event ∈ entry.2.events.entries, name = .event (language.game.symbolName event.1)) ∧
      next = { draft with
        symbols
        areas := draft.areas ++ [area]
        definedEvents :=
          draft.definedEvents ++ entry.2.events.keys.map language.game.symbolName } := by
  rcases loadArea_eq_ok_iff.mp hload with
    ⟨-, _, _, _, _, _, _, _, _, hlocations, hexits, hevents, hgossips, rfl⟩
  rcases readPlaces_follows hlocations with ⟨hplaces, hfirst⟩
  rcases readPlaces_follows hexits with ⟨hways, hsecond⟩
  rcases readEvents_follows hevents with ⟨hgains, hthird⟩
  rcases readPlaces_follows hgossips with ⟨hstones, hfourth⟩
  have hextends₄ := extends_readPlaces hgossips
  have hextends₃ := hextends₄.trans (lt_size_of_readEvents hevents).1
  have hextends₂ := hextends₃.trans (extends_readPlaces hexits)
  refine ⟨_, _, ⟨rfl, ?_, ?_, ?_, hstones⟩, hextends₂.trans (extends_readPlaces hlocations), ?_,
    rfl⟩
  · exact hplaces.imp fun _ _ hplace => hplace.extend hextends₂
  · exact hways.imp fun _ _ hway => hway.extend hextends₃
  · exact hgains.imp fun _ _ hgain => hgain.extend hextends₄
  · intro name
    rw [hfourth, hthird, hsecond, hfirst]
    simp only [RawArea.texts, mentioned_append_iff, or_assoc, or_comm, or_left_comm]

end Draft

end SeedLogic
