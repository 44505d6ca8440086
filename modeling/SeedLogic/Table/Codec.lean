import SeedLogic.Json.Decoder
import SeedLogic.Table

/-!
# Game tables as documents

Of a table only the game is required, and of an area nothing.  Unknown members
are skipped.
-/

namespace SeedLogic

open Json (Decoder Place)

/-- The object of a dictionary. -/
def Dict.toJson {α : Type} (value : α → Json) (dict : Dict String α) : Json :=
  .object (dict.entries.map fun entry => (entry.1, value entry.2))

/-- The texts of a dictionary. -/
def textsToJson (dict : Dict String String) : Json :=
  dict.toJson .string

namespace RawArea

def toJson (area : RawArea) : Json :=
  .object
    [("dungeon", match area.dungeon? with
        | some dungeon => .string dungeon
        | none => .null),
      ("locations", textsToJson area.locations), ("exits", textsToJson area.exits),
      ("events", textsToJson area.events), ("gossip", textsToJson area.gossip)]

def shape : Decoder.Shape where
  fields := ["dungeon", "locations", "exits", "events", "gossip"]
  required := []
  least := 0

def assign (area : RawArea) (field : String) (json : Json) : Except Place RawArea :=
  match field with
  | "dungeon" => return { area with dungeon? := ← Decoder.nullable Decoder.string json }
  | "locations" => return { area with locations := ← Decoder.dict Decoder.string json }
  | "exits" => return { area with exits := ← Decoder.dict Decoder.string json }
  | "events" => return { area with events := ← Decoder.dict Decoder.string json }
  | _ => return { area with gossip := ← Decoder.dict Decoder.string json }

def ofJson : Decoder RawArea :=
  Decoder.record shape bare assign

end RawArea

namespace RawCheckId

def toJson : RawCheckId → Json
  | .number value => .natural value
  | .name value => .string value

def ofJson : Decoder RawCheckId
  | .string value => .ok (.name value)
  | json => (Decoder.word32 json).map .number

end RawCheckId

namespace RawCheck

def toJson (check : RawCheck) : Json :=
  .object [("location", .string check.location), ("type", .string check.type.name),
    ("scene", .string check.scene), ("id", check.id.toJson), ("item", .string check.item)]

def shape : Decoder.Shape where
  fields := ["location", "type", "scene", "id", "item"]
  required := ["location", "type", "scene", "id", "item"]
  least := 5

def assign (check : RawCheck) (field : String) (json : Json) : Except Place RawCheck :=
  match field with
  | "location" => return { check with location := ← Decoder.string json }
  | "type" => return { check with type := ← Decoder.case CheckType.ofName? json }
  | "scene" => return { check with scene := ← Decoder.string json }
  | "id" => return { check with id := ← RawCheckId.ofJson json }
  | _ => return { check with item := ← Decoder.string json }

def ofJson : Decoder RawCheck :=
  Decoder.record shape ⟨"", .numeric .chest, "", .number 0, ""⟩ assign

end RawCheck

/-! ## Hint stones -/

namespace GossipKind

/-- The entry of a hint stone in a table. -/
def toJson (kind : GossipKind) : Json :=
  .object [("type", .string kind.name)]

def ofJson : Decoder GossipKind :=
  Decoder.single "type" (Decoder.case ofName?)

end GossipKind

namespace GameTable

def toJson (table : GameTable) : Json :=
  .object
    [("game", .string table.game.name), ("start", .array (table.start.map .string)),
      ("items", .array (table.items.map .string)), ("macros", textsToJson table.macros),
      ("areas", table.areas.toJson RawArea.toJson),
      ("pool", .array (table.pool.map RawCheck.toJson)),
      ("gossip", table.gossip.toJson GossipKind.toJson)]

def shape : Decoder.Shape where
  fields := ["game", "start", "items", "macros", "areas", "pool", "gossip"]
  required := ["game"]
  least := 1

def assign (table : GameTable) (field : String) (json : Json) : Except Place GameTable :=
  match field with
  | "game" => return { table with game := ← Decoder.case Game.ofName? json }
  | "start" => return { table with start := ← Decoder.list Decoder.string json }
  | "items" => return { table with items := ← Decoder.list Decoder.string json }
  | "macros" => return { table with macros := ← Decoder.dict Decoder.string json }
  | "areas" => return { table with areas := ← Decoder.dict RawArea.ofJson json }
  | "pool" => return { table with pool := ← Decoder.list RawCheck.ofJson json }
  | _ => return { table with gossip := ← Decoder.dict GossipKind.ofJson json }

def ofJson : Decoder GameTable :=
  Decoder.record shape (bare .oot) assign

/-- The table of a text. -/
def ofText (text : String) : Except Place GameTable :=
  Decoder.ofText ofJson text

end GameTable

end SeedLogic
