import SeedLogic.Json.Decoder
import SeedLogic.Location

/-!
# Locations as documents

A location is a record of two numbers.
-/

namespace SeedLogic.Location

open Json (Decoder Place)

def toJson (location : Location) : Json :=
  .object [("world", .natural location.world), ("check", .natural location.check)]

def shape : Decoder.Shape where
  fields := ["world", "check"]
  required := ["world", "check"]
  least := 2

def assign (location : Location) (field : String) (json : Json) : Except Place Location :=
  match field with
  | "world" => return { location with world := ← Decoder.word64 json }
  | _ => return { location with check := ← Decoder.word64 json }

def ofJson : Decoder Location :=
  Decoder.record shape ⟨0, 0⟩ assign

/-- Reading what was written, for numbers of 64 bits. -/
theorem ofJson_toJson (location : Location) (hworld : location.world < Nat.pow 2 64)
    (hcheck : location.check < Nat.pow 2 64) : ofJson location.toJson = .ok location := by
  rcases location with ⟨world, check⟩
  simp only [ofJson, toJson, Decoder.record_object, Decoder.recordOfMembers, Decoder.assignMembers,
    shape, assign, Decoder.word64_natural hworld, Decoder.word64_natural hcheck]
  rfl

end SeedLogic.Location
