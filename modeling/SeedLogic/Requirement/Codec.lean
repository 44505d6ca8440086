import SeedLogic.Json.Decoder
import SeedLogic.Requirement

/-!
# Requirements as documents

A requirement is an object with one member, which is named for the form of the
requirement and holds its parts.
-/

namespace SeedLogic.Requirement

open Json (Decoder Place)

mutual

/-- The document of a requirement. -/
def toJson : Requirement → Json
  | .const value => .object [("Const", .bool value)]
  | .hasItem item count => .object [("HasItem", .array [.natural item, .natural count])]
  | .hasEvent event => .object [("HasEvent", .natural event)]
  | .not operand => .object [("Not", toJson operand)]
  | .and operands => .object [("And", .array (toJsonAll operands))]
  | .or operands => .object [("Or", .array (toJsonAll operands))]
  | .atLeast count operands =>
      .object [("AtLeast", .array [.natural count, .array (toJsonAll operands)])]
  | .setting id => .object [("Setting", .natural id)]

/-- The documents of several requirements. -/
def toJsonAll : List Requirement → List Json
  | [] => []
  | operand :: operands => toJson operand :: toJsonAll operands

end

mutual

/-- The requirement of a document. -/
def ofJson : Json → Except Place Requirement
  | .object [(form, body)] => ofForm form body
  | _ => Decoder.refuse

/-- The requirement of a form and the document of its parts. -/
def ofForm : String → Json → Except Place Requirement
  | "Const", .bool value => .ok (.const value)
  | "HasItem", .array [item, count] => do
      let item ← Decoder.word64 item
      let count ← Decoder.word32 count
      .ok (.hasItem item count)
  | "HasEvent", event => (Decoder.word64 event).map .hasEvent
  | "Not", operand => (ofJson operand).map .not
  | "And", .array operands => (ofJsonAll operands).map .and
  | "Or", .array operands => (ofJsonAll operands).map .or
  | "AtLeast", .array [count, .array operands] => do
      let count ← Decoder.word32 count
      let operands ← ofJsonAll operands
      .ok (.atLeast count operands)
  | "Setting", id => (Decoder.word64 id).map .setting
  | _, _ => Decoder.refuse

/-- The requirements of several documents. -/
def ofJsonAll : List Json → Except Place (List Requirement)
  | [] => .ok []
  | operand :: operands => do
      let first ← ofJson operand
      let others ← ofJsonAll operands
      .ok (first :: others)

end

/-- The requirement of a text. -/
def ofText (text : String) : Except Place Requirement :=
  Decoder.ofText ofJson text

end SeedLogic.Requirement
