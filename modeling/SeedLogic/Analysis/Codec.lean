import SeedLogic.Analysis
import SeedLogic.Json.Decoder

/-!
# Kinds of paths as documents

The kind of a path has the tag `woth`, `boss` or `end-boss`.  The last two name the
boss and its world.
-/

namespace SeedLogic.PathKind

open Json (Decoder Place)

/-- The members of a boss. -/
def bossMembers (role name : String) (world : WorldId) : List (String × Json) :=
  [("type", .string role), ("boss", .string name), ("world", .natural world)]

/-- The members of the kind of a path. -/
def members : PathKind → List (String × Json)
  | .woth => [("type", .string "woth")]
  | .boss name world => bossMembers "boss" name world
  | .endBoss name world => bossMembers "end-boss" name world

def toJson (kind : PathKind) : Json :=
  .object kind.members

/-- A boss and its world. -/
def bossOfJson : Decoder (String × WorldId) :=
  Decoder.record ⟨["boss", "world"], ["boss", "world"], 2⟩ ("", 0) fun target field json =>
    match field with
    | "boss" => return (← Decoder.string json, target.2)
    | _ => return (target.1, ← Decoder.word64 json)

def variants : Decoder.Variants PathKind :=
  [("woth", Decoder.fieldless .woth),
    ("boss", fun json => (bossOfJson json).map fun target => .boss target.1 target.2),
    ("end-boss", fun json => (bossOfJson json).map fun target => .endBoss target.1 target.2)]

def ofJson : Decoder PathKind :=
  Decoder.tagged (Decoder.variantNamed? variants)

/-- The kind of path of a text. -/
def ofText (text : String) : Except Place PathKind :=
  Decoder.ofText ofJson text

end SeedLogic.PathKind
