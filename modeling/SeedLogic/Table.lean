import SeedLogic.Check
import SeedLogic.Dict
import SeedLogic.Game

/-!
# Game tables

The raw description of one game: its areas with what can be reached from them,
the pool of checks with their items, the hint stones, and the macros of its
requirement texts.  Names and requirements are still text.
-/

namespace SeedLogic

/-- An area as a table describes it.  Each dictionary leads from the name of what
can be reached to the text of its requirement. -/
structure RawArea where
  dungeon? : Option String
  locations : Dict String String
  exits : Dict String String
  events : Dict String String
  gossip : Dict String String

/-- An area about which the table says nothing. -/
def RawArea.bare : RawArea :=
  ⟨none, .empty, .empty, .empty, .empty⟩

/-- The type of a check in the pool of a table. -/
inductive CheckType where
  | numeric (kind : NumericKind)
  | symbolic (kind : SymbolicKind)
  deriving DecidableEq, Repr

namespace CheckType

/-- The name of a type in documents. -/
def name : CheckType → String
  | .numeric kind => kind.name
  | .symbolic kind => kind.name

def ofName? (name : String) : Option CheckType :=
  match NumericKind.ofName? name with
  | some kind => some (.numeric kind)
  | none => (SymbolicKind.ofName? name).map .symbolic

@[simp]
theorem ofName?_name (type : CheckType) : ofName? type.name = some type := by
  rcases type with kind | kind <;> cases kind <;> decide

end CheckType

/-- The identification of a check in the pool of a table. -/
inductive RawCheckId where
  | number (value : Nat)
  | name (value : String)
  deriving DecidableEq, Repr

/-- A check in the pool of a table, with the item it holds originally. -/
structure RawCheck where
  location : String
  type : CheckType
  scene : String
  id : RawCheckId
  item : String
  deriving DecidableEq, Repr

/-- The raw description of a game. -/
structure GameTable where
  game : Game
  start : List String
  items : List String
  macros : Dict String String
  areas : Dict String RawArea
  pool : List RawCheck
  gossip : Dict String GossipKind

/-- A table that says nothing about its game. -/
def GameTable.bare (game : Game) : GameTable :=
  ⟨game, [], [], .empty, .empty, [], .empty⟩

end SeedLogic
