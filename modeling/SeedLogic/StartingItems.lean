import SeedLogic.Error
import SeedLogic.World

/-!
# Starting items

What players have from the start: items with counts, and events.
-/

namespace SeedLogic

/-- Items and events that players start with, by player. -/
structure StartingItems where
  items : List (List (ItemId × Nat))
  events : List (List EventId)
  deriving DecidableEq, Repr

namespace StartingItems

/-- Nothing, for a number of players. -/
def none (players : Nat) : StartingItems :=
  ⟨List.replicate players [], List.replicate players []⟩

/-- Append an entry for a player, who joins the list if need be. -/
def append {α : Type} (player : WorldId) (entry : α) (lists : List (List α)) : List (List α) :=
  (lists ++ List.replicate (player + 1 - lists.length) []).modify player (· ++ [entry])

/-- Give a player some of an item. -/
def addItem (starting : StartingItems) (player : WorldId) (item : ItemId) (count : Nat) :
    StartingItems :=
  { starting with items := append player (item, count) starting.items }

/-- Give a player an event. -/
def addEvent (starting : StartingItems) (player : WorldId) (event : EventId) : StartingItems :=
  { starting with events := append player event starting.events }

/-- The items of a player. -/
def itemsOf (starting : StartingItems) (player : WorldId) : List (ItemId × Nat) :=
  starting.items[player]?.getD []

/-- The events of a player. -/
def eventsOf (starting : StartingItems) (player : WorldId) : List EventId :=
  starting.events[player]?.getD []

/-- How many players are spoken of. -/
def players (starting : StartingItems) : Nat :=
  max starting.items.length starting.events.length

/-- The items of a player exist in the player's world. -/
def validateItems (entry : (World × List (ItemId × Nat)) × WorldId) : Except LogicError Unit :=
  match entry.1.2.find? fun item => entry.1.1.itemCount ≤ item.1 with
  | some item => .error (.invalidOptions (.unknownStartingItem item.1 entry.2))
  | _ => .ok ()

/-- The events of a player exist in the player's world. -/
def validateEvents (entry : (World × List EventId) × WorldId) : Except LogicError Unit :=
  match entry.1.2.find? fun event => entry.1.1.eventCount ≤ event with
  | some event => .error (.invalidOptions (.unknownStartingEvent event entry.2))
  | _ => .ok ()

/-- Every player spoken of has a world, in which the items and events exist. -/
def validate (starting : StartingItems) (worlds : List World) : Except LogicError Unit :=
  if starting.players > worlds.length then
    .error (.invalidOptions (.startingSurplus (starting.players - 1) worlds.length))
  else do
    (worlds.zip starting.items).zipIdx.forM validateItems
    (worlds.zip starting.events).zipIdx.forM validateEvents

end StartingItems

end SeedLogic
