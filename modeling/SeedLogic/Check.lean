/-!
# Kinds of checks

A check is a place in a game that holds an item.  What identifies it inside the
game depends on its kind: a number for chests and the like, a name for
characters.
-/

namespace SeedLogic

/-- Checks that a number identifies. -/
inductive NumericKind where
  | chest
  | collectible
  | gs
  | sf
  deriving DecidableEq, Repr

namespace NumericKind

def all : List NumericKind :=
  [.chest, .collectible, .gs, .sf]

/-- The name of a kind in documents and messages. -/
def name : NumericKind → String
  | .chest => "chest"
  | .collectible => "collectible"
  | .gs => "gs"
  | .sf => "sf"

def ofName? (name : String) : Option NumericKind :=
  all.find? fun kind => kind.name == name

@[simp]
theorem ofName?_name (kind : NumericKind) : ofName? kind.name = some kind := by
  cases kind <;> decide

end NumericKind

/-- Checks that a name identifies. -/
inductive SymbolicKind where
  | npc
  deriving DecidableEq, Repr

namespace SymbolicKind

def all : List SymbolicKind :=
  [.npc]

/-- The name of a kind in documents. -/
def name : SymbolicKind → String
  | .npc => "npc"

def ofName? (name : String) : Option SymbolicKind :=
  all.find? fun kind => kind.name == name

@[simp]
theorem ofName?_name (kind : SymbolicKind) : ofName? kind.name = some kind := by
  cases kind; decide

end SymbolicKind

/-- The kind of a check with its identification in the game. -/
inductive CheckKind where
  | numeric (kind : NumericKind) (id : Nat)
  | symbolic (kind : SymbolicKind) (id : String)
  deriving DecidableEq, Repr

/-- Where the item of a check may be placed. -/
inductive Constraint where
  | anywhere
  | ownDungeon
  | ownGame
  | vanilla
  deriving DecidableEq, Repr

namespace Constraint

def all : List Constraint :=
  [.anywhere, .ownDungeon, .ownGame, .vanilla]

/-- The name of a constraint in settings. -/
def name : Constraint → String
  | .anywhere => "anywhere"
  | .ownDungeon => "ownDungeon"
  | .ownGame => "ownGame"
  | .vanilla => "vanilla"

def ofName? (name : String) : Option Constraint :=
  all.find? fun constraint => constraint.name == name

@[simp]
theorem ofName?_name (constraint : Constraint) :
    ofName? constraint.name = some constraint := by
  cases constraint <;> decide

end Constraint

/-- Places where a hint can be read. -/
inductive GossipKind where
  | stone
  | grotto
  | moon
  deriving DecidableEq, Repr

namespace GossipKind

def all : List GossipKind :=
  [.stone, .grotto, .moon]

/-- The name of a kind in documents. -/
def name : GossipKind → String
  | .stone => "gossip"
  | .grotto => "gossip-grotto"
  | .moon => "gossip-moon"

def ofName? (name : String) : Option GossipKind :=
  all.find? fun kind => kind.name == name

@[simp]
theorem ofName?_name (kind : GossipKind) : ofName? kind.name = some kind := by
  cases kind <;> decide

end GossipKind

end SeedLogic
