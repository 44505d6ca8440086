import SeedLogic.Check
import SeedLogic.Json.Decoder

/-!
# Kinds of checks as documents

The kind of a check is an object with one member.  Its name says what identifies
the check, and its value is a record of the kind and the identification.
-/

namespace SeedLogic.CheckKind

open Json (Decoder Place)

def toJson : CheckKind → Json
  | .numeric kind id =>
      .object [("Numeric", .object [("kind", .string kind.name), ("id", .natural id)])]
  | .symbolic kind id =>
      .object [("Symbolic", .object [("kind", .string kind.name), ("id", .string id)])]

/-- The fields of both forms. -/
def shape : Decoder.Shape where
  fields := ["kind", "id"]
  required := ["kind", "id"]
  least := 2

def numericOfJson : Decoder (NumericKind × Nat) :=
  Decoder.record shape (.chest, 0) fun check field json =>
    match field with
    | "kind" => return (← Decoder.case NumericKind.ofName? json, check.2)
    | _ => return (check.1, ← Decoder.word32 json)

def symbolicOfJson : Decoder (SymbolicKind × String) :=
  Decoder.record shape (.npc, "") fun check field json =>
    match field with
    | "kind" => return (← Decoder.case SymbolicKind.ofName? json, check.2)
    | _ => return (check.1, ← Decoder.string json)

def ofJson : Decoder CheckKind
  | .object [("Numeric", body)] => (numericOfJson body).map fun check => .numeric check.1 check.2
  | .object [("Symbolic", body)] =>
      (symbolicOfJson body).map fun check => .symbolic check.1 check.2
  | _ => Decoder.refuse

end SeedLogic.CheckKind
