import SeedLogic.Analysis.Codec
import SeedLogic.Hint.Codec
import SeedLogic.SpoilerLog

/-!
# Spoiler logs as documents

Logs, and the locations in them, are records.  A path is an object that holds its
kind beside its locations, and a hint of the log is one that holds the hint beside
the stone that has it.  In these objects the tag may also be the place of the
variant, counted from zero.
-/

namespace SeedLogic

open Json (Decoder Place)

namespace SpoilerLocation

def toJson (location : SpoilerLocation) : Json :=
  .object
    [("world", .natural location.world), ("location", .string location.location),
      ("scene", .string location.scene),
      ("item", match location.item? with
        | some item => .string item
        | none => .null)]

def shape : Decoder.Shape where
  fields := ["world", "location", "scene", "item"]
  required := ["world", "location", "scene"]
  least := 4

def assign (location : SpoilerLocation) (field : String) (json : Json) :
    Except Place SpoilerLocation :=
  match field with
  | "world" => return { location with world := ← Decoder.word64 json }
  | "location" => return { location with location := ← Decoder.string json }
  | "scene" => return { location with scene := ← Decoder.string json }
  | _ => return { location with item? := ← Decoder.nullable Decoder.string json }

def ofJson : Decoder SpoilerLocation :=
  Decoder.record shape ⟨0, "", "", none⟩ assign

end SpoilerLocation

namespace SpoilerLog

/-- The document of several locations. -/
def locationsToJson (locations : List SpoilerLocation) : Json :=
  .array (locations.map SpoilerLocation.toJson)

/-- A value with variants that stands beside the fields of a shape. -/
def beside {α : Type} (variants : Decoder.Variants α) (shape : Decoder.Shape)
    (members : List (String × Json)) : Except Place α :=
  Decoder.tagged (Decoder.variantAt? variants)
    (.object (members.filter fun member => !shape.fields.contains member.1))

/-- The fields beside which a path holds its kind. -/
def pathShape : Decoder.Shape where
  fields := ["locations"]
  required := ["locations"]
  least := 1

def pathToJson (path : SpoilerPath) : Json :=
  .object (path.kind.members ++ [("locations", locationsToJson path.locations)])

def pathOfJson : Decoder SpoilerPath
  | .object members => do
      let locations ← Decoder.recordOfMembers pathShape [] (fun _ _ json =>
        Decoder.list SpoilerLocation.ofJson json) Decoder.flawless (.object members) members
      let kind ← beside PathKind.variants pathShape members
      .ok ⟨kind, locations⟩
  | _ => Decoder.refuse

/-- The fields beside which a hint of the log holds what the stone tells. -/
def hintShape : Decoder.Shape where
  fields := ["world", "gossip"]
  required := ["world", "gossip"]
  least := 2

def hintToJson (entry : SpoilerHint) : Json :=
  .object <| [("world", .natural entry.world), ("gossip", .string entry.gossip)] ++
    entry.hint.members

def hintOfJson : Decoder SpoilerHint
  | .object members => do
      let (world, gossip) ← Decoder.recordOfMembers hintShape (0, "") (fun stone field json =>
        match field with
        | "world" => return (← Decoder.word64 json, stone.2)
        | _ => return (stone.1, ← Decoder.string json))
        Decoder.flawless (.object members) members
      let hint ← beside Hint.variants hintShape members
      .ok ⟨world, gossip, hint⟩
  | _ => Decoder.refuse

def toJson (log : SpoilerLog) : Json :=
  .object
    [("spheres", .array (log.spheres.map locationsToJson)),
      ("required", locationsToJson log.required),
      ("unreachable", locationsToJson log.unreachable),
      ("paths", .array (log.paths.map pathToJson)),
      ("hints", .array (log.hints.map hintToJson))]

def shape : Decoder.Shape where
  fields := ["spheres", "required", "unreachable", "paths", "hints"]
  required := ["spheres", "required", "unreachable", "paths", "hints"]
  least := 5

def assign (log : SpoilerLog) (field : String) (json : Json) : Except Place SpoilerLog :=
  let locations := Decoder.list SpoilerLocation.ofJson
  match field with
  | "spheres" => return { log with spheres := ← Decoder.list locations json }
  | "required" => return { log with required := ← locations json }
  | "unreachable" => return { log with unreachable := ← locations json }
  | "paths" => return { log with paths := ← Decoder.list pathOfJson json }
  | _ => return { log with hints := ← Decoder.list hintOfJson json }

def ofJson : Decoder SpoilerLog :=
  Decoder.record shape ⟨[], [], [], [], []⟩ assign

/-- The log of a text. -/
def ofText (text : String) : Except Place SpoilerLog :=
  Decoder.ofText ofJson text

end SpoilerLog

end SeedLogic
