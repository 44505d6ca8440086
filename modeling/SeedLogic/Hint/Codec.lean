import SeedLogic.Hint
import SeedLogic.Location.Codec

/-!
# Hints as documents

A hint has the tag `hero`, `item-exact` or `foolish`, and one field.
-/

namespace SeedLogic.Hint

open Json (Decoder Place)

/-- The members of a hint. -/
def members : Hint → List (String × Json)
  | .hero location => [("type", .string "hero"), ("location", location.toJson)]
  | .itemExact locations =>
      [("type", .string "item-exact"), ("locations", .array (locations.map Location.toJson))]
  | .foolish region => [("type", .string "foolish"), ("region", .string region)]

def toJson (hint : Hint) : Json :=
  .object hint.members

def variants : Decoder.Variants Hint :=
  [("hero", fun json => (Decoder.single "location" Location.ofJson json).map .hero),
    ("item-exact", fun json =>
      (Decoder.single "locations" (Decoder.list Location.ofJson) json).map .itemExact),
    ("foolish", fun json => (Decoder.single "region" Decoder.string json).map .foolish)]

def ofJson : Decoder Hint :=
  Decoder.tagged (Decoder.variantNamed? variants)

/-- The hint of a text. -/
def ofText (text : String) : Except Place Hint :=
  Decoder.ofText ofJson text

end SeedLogic.Hint
