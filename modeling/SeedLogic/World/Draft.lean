import SeedLogic.Formula.Expansion
import SeedLogic.Table
import SeedLogic.World

/-!
# Drafts of worlds

The first half of building a world: the tables of the games are loaded one after
the other into a `Draft`, whose areas still refer to each other, to checks and to
hint stones by name.  That way a table may refer to things of a later one.
-/

namespace SeedLogic

/-- Something that can be reached from an area, by name, and the requirement to
reach it. -/
structure NamedGate where
  target : String
  requirement : Requirement

/-- An area whose references are names. -/
structure AreaDraft where
  name : String
  game : Game
  dungeon? : Option String
  locations : List NamedGate
  exits : List NamedGate
  events : List Gate
  gossips : List NamedGate

/-- What the tables loaded so far say. -/
structure Draft where
  symbols : Symbols
  areas : List AreaDraft
  checks : List Check
  gossips : List GossipStone
  starts : List String
  declaredItems : List String
  definedEvents : List String

namespace Draft

/-- Nothing loaded. -/
def empty : Draft :=
  ⟨.empty, [], [], [], [], [], []⟩

/-! ## Areas -/

/-- Read one requirement of a table. -/
def readRequirement (game : Game) (macros : MacroTable) (symbols : Symbols) (text : String) :
    Except LogicError (Requirement × Symbols) :=
  match Requirement.parse game macros symbols text with
  | (.ok requirement, symbols) => .ok (requirement, symbols)
  | (.error error, _) => .error error

/-- Read the requirements of places, in order. -/
def readPlaces (game : Game) (macros : MacroTable) :
    Symbols → List (String × String) → Except LogicError (List NamedGate × Symbols)
  | symbols, [] => .ok ([], symbols)
  | symbols, (name, text) :: rest => do
      let (requirement, symbols) ← readRequirement game macros symbols text
      let (others, symbols) ← readPlaces game macros symbols rest
      .ok (⟨game.placeName name, requirement⟩ :: others, symbols)

/-- Read the requirements of events, in order.  An event is numbered after the
names in its requirement. -/
def readEvents (game : Game) (macros : MacroTable) :
    Symbols → List (String × String) → Except LogicError (List Gate × Symbols)
  | symbols, [] => .ok ([], symbols)
  | symbols, (name, text) :: rest => do
      let (requirement, symbols) ← readRequirement game macros symbols text
      let symbols := symbols.mention (.event (game.symbolName name))
      let id := symbols.events.idOf (game.symbolName name)
      let (others, symbols) ← readEvents game macros symbols rest
      .ok (⟨id, requirement⟩ :: others, symbols)

/-- Load an area of a table. -/
def loadArea (game : Game) (macros : MacroTable) (draft : Draft) (entry : String × RawArea) :
    Except LogicError Draft := do
  let name := game.placeName entry.1
  let area := entry.2
  if draft.areas.any fun other => other.name == name then .error (.duplicateArea name)
  else do
    let (locations, symbols) ← readPlaces game macros draft.symbols area.locations.entries
    let (exits, symbols) ← readPlaces game macros symbols area.exits.entries
    let (events, symbols) ← readEvents game macros symbols area.events.entries
    let (gossips, symbols) ← readPlaces game macros symbols area.gossip.entries
    .ok
      { draft with
        symbols
        areas := draft.areas ++
          [⟨name, game, area.dungeon?.map game.placeName, locations, exits, events, gossips⟩]
        definedEvents := draft.definedEvents ++ area.events.keys.map game.symbolName }

/-! ## Items and checks -/

/-- Declare an item. -/
def declareItem (draft : Draft) (name : String) : Draft :=
  { draft with
    symbols := draft.symbols.mention (.item name)
    declaredItems := draft.declaredItems ++ [name] }

/-- The kind of a check, whose identification must suit its type. -/
def checkKind (name : String) (check : RawCheck) : Except LogicError CheckKind :=
  match check.type, check.id with
  | .numeric kind, .number id => .ok (.numeric kind id)
  | .numeric kind, .name id => .error (.invalidCheck name (.numberNeeded kind id))
  | .symbolic kind, .name id => .ok (.symbolic kind id)
  | .symbolic kind, .number id => .error (.invalidCheck name (.nameNeeded kind id))

/-- Load a check of a table's pool.  Its item is declared by it. -/
def loadCheck (game : Game) (constraint : String → Constraint) (draft : Draft)
    (check : RawCheck) : Except LogicError Draft := do
  let name := game.placeName check.location
  if draft.checks.any fun other => other.name == name then .error (.duplicateCheck name)
  else do
    let kind ← checkKind name check
    let item := game.symbolName check.item
    let draft := draft.declareItem item
    .ok
      { draft with
        checks := draft.checks ++
          [⟨name, game, game.symbolName check.scene, item, kind, constraint item, none⟩] }

/-! ## Hint stones -/

/-- Load a hint stone of a table. -/
def loadGossip (game : Game) (draft : Draft) (entry : String × GossipKind) :
    Except LogicError Draft :=
  let name := game.placeName entry.1
  if draft.gossips.any fun other => other.name == name then .error (.duplicateGossip name)
  else .ok { draft with gossips := draft.gossips ++ [⟨name, game, entry.2⟩] }

/-! ## Tables -/

/-- The macros of a table. -/
def macrosOf (table : GameTable) : Except LogicError MacroTable :=
  table.macros.entries.foldlM (fun macros entry => macros.declare entry.1 entry.2) .empty

/-- Load a table: its macros, areas, items, checks, hint stones and start areas. -/
def load (constraint : String → Constraint) (draft : Draft) (table : GameTable) :
    Except LogicError Draft := do
  let game := table.game
  let macros ← macrosOf table
  let draft ← table.areas.entries.foldlM (loadArea game macros) draft
  let draft := (table.items.map game.symbolName).foldl declareItem draft
  let draft ← table.pool.foldlM (loadCheck game constraint) draft
  let draft ← table.gossip.entries.foldlM (loadGossip game) draft
  .ok { draft with starts := draft.starts ++ table.start.map game.placeName }

end Draft

end SeedLogic
