/-!
# Locations and placed items

A seed has one world per player.  A `Location` is a check of one of them, and a
`PlayerItem` is an item together with the player who receives it.
-/

namespace SeedLogic

abbrev WorldId := Nat
abbrev AreaId := Nat
abbrev CheckId := Nat
abbrev GossipId := Nat
abbrev ItemId := Nat
abbrev EventId := Nat

/-- A check of one world. -/
structure Location where
  world : WorldId
  check : CheckId
  deriving DecidableEq, Repr

namespace Location

/-- Locations are ordered by world, and then by check. -/
def order (left right : Location) : Ordering :=
  compareLex (compareOn Location.world) (compareOn Location.check) left right

instance : Ord Location :=
  ⟨order⟩

instance : Std.TransOrd Location :=
  inferInstanceAs (Std.TransCmp
    (compareLex (compareOn Location.world) (compareOn Location.check)))

instance : Std.LawfulEqOrd Location where
  eq_of_compare {left right} hcompare := by
    have hlex : compareLex (compareOn Location.world) (compareOn Location.check)
        left right = .eq := hcompare
    simp only [compareLex, Ordering.then_eq_eq, compareOn] at hlex
    rcases hlex with ⟨hworld, hcheck⟩
    cases left
    cases right
    cases Std.LawfulEqCmp.eq_of_compare hworld
    cases Std.LawfulEqCmp.eq_of_compare hcheck
    rfl

/-- How messages write a location. -/
def describe (location : Location) : String :=
  "Location \x7b world: " ++ toString location.world ++ ", check: " ++
    toString location.check ++ " \x7d"

end Location

/-- An item of a player's world, received by that player. -/
structure PlayerItem where
  player : WorldId
  item : ItemId
  deriving DecidableEq, Repr

/-- How messages write a placed item. -/
def PlayerItem.describe (placed : PlayerItem) : String :=
  "PlayerItem \x7b player: " ++ toString placed.player ++ ", item: " ++
    toString placed.item ++ " \x7d"

end SeedLogic
