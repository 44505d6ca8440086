import SeedLogic.Error
import SeedLogic.World

/-!
# Placements

A `Placement` says which item lies at a location and who receives it.  The
vanilla placement leaves every item where the game has it.
-/

namespace SeedLogic

/-- The items at locations. -/
structure Placement where
  items : Dict Location PlayerItem

namespace Placement

/-- Nothing placed. -/
def empty : Placement :=
  ⟨.empty⟩

/-- The item at a location. -/
def get? (placement : Placement) (location : Location) : Option PlayerItem :=
  placement.items.find? location

/-- Place an item, over one that lies there. -/
def insert (placement : Placement) (location : Location) (placed : PlayerItem) : Placement :=
  ⟨placement.items.insert location placed⟩

/-- Place several items, of which a later one replaces an earlier one. -/
def insertAll (placement : Placement) (entries : List (Location × PlayerItem)) : Placement :=
  entries.foldl (fun placement entry => placement.insert entry.1 entry.2) placement

/-- Number of items placed. -/
def size (placement : Placement) : Nat :=
  placement.items.size

/-- The item that a check of a world holds originally. -/
def vanillaItem? (world : World) (id : WorldId) (entry : Check × CheckId) :
    Option (Location × PlayerItem) :=
  (world.itemId? entry.1.item).map fun item => (⟨id, entry.2⟩, ⟨id, item⟩)

/-- Every check holds its own item, for its own player. -/
def vanilla (worlds : List World) : Placement :=
  empty.insertAll <| worlds.zipIdx.flatMap fun entry =>
    entry.1.checks.zipIdx.filterMap (vanillaItem? entry.1 entry.2)

/-- The item that a player puts at a slot of the own world, both by name. -/
def ofSlot (world : World) (id : WorldId) (entry : String × String) :
    Except LogicError (Location × PlayerItem) :=
  match world.checkId? entry.1 with
  | none => .error (.invalidOptions (.unknownSlot entry.1))
  | some check =>
      match world.itemId? entry.2 with
      | none => .error (.unknownSymbol .item entry.2)
      | some item => .ok (⟨id, check⟩, ⟨id, item⟩)

/-- The items that a player puts at slots of the own world. -/
def ofSlots (entry : (World × Dict String String) × WorldId) :
    Except LogicError (List (Location × PlayerItem)) :=
  entry.1.2.entries.mapM (ofSlot entry.1.1 entry.2)

/-- The placement in which each player puts items at slots of the own world. -/
def ofNames (worlds : List World) (names : List (Dict String String)) :
    Except LogicError Placement :=
  if names.length > worlds.length then
    .error (.invalidOptions (.placementSurplus names.length worlds.length))
  else do
    let slots ← (worlds.zip names).zipIdx.mapM ofSlots
    .ok (empty.insertAll slots.flatten)

end Placement

end SeedLogic
