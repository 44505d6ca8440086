import SeedLogic.Dict
import SeedLogic.Json.Reader

/-!
# Decoding documents

A decoder turns a JSON value into a value of the program, or says where in the
document the fault lies.  Faults are found in the order of the document, and a flaw
of its text is one of them.

Records are objects, whose unknown members are skipped and whose known ones may
not be repeated, or arrays that list the fields in their order.  A value that has
variants is a record with one more member, the tag, that says which variant it is;
in an array the tag comes first.
-/

namespace SeedLogic.Json

/-- A step into a document. -/
inductive Step where
  | member (key : String)
  | element (index : Nat)
  deriving DecidableEq, Repr

/-- A place in a document, by the way to it.  No place is known of a fault in the
keys of an object. -/
abbrev Place :=
  Option (List Step)

/-- The text of a way behind other steps. -/
def Step.describeBehind : Step → String
  | .member key => "." ++ key
  | .element index => "[" ++ toString index ++ "]"

/-- The text of a place.  The whole document is a point, and so is no place. -/
def Place.describe : Place → String
  | none | some [] => "."
  | some (.member key :: steps) => key ++ String.join (steps.map Step.describeBehind)
  | some (.element index :: steps) =>
      "[" ++ toString index ++ "]" ++ String.join (steps.map Step.describeBehind)

/-- A decoder answers with a value, or with the place of a fault. -/
abbrev Decoder (α : Type) :=
  Json → Except Place α

namespace Decoder

variable {α β : Type}

/-- A fault at this place. -/
def refuse : Except Place α :=
  .error (some [])

/-- A result found one step further in. -/
def inside (step : Step) (result : Except Place α) : Except Place α :=
  result.mapError (Option.map (step :: ·))

/-- An answer that may be missing, as a result. -/
def ofOption : Option α → Except Place α
  | some value => .ok value
  | none => refuse

/-- The value of a text. -/
def ofText (decoder : Decoder α) (text : String) : Except Place α :=
  ofOption (Json.ofText? text) >>= decoder

/-! ## Flaws -/

/-- The fault that a flaw is. -/
def refuseFlaw (flaw : Flaw) : Except Place α :=
  .error (if flaw.isInKey then none else some [])

/-- An answer about a value without flaw. -/
def complete (json : Json) (value : α) : Except Place α :=
  match json.flaw? with
  | some flaw => refuseFlaw flaw
  | none => .ok value

/-- A value that is skipped, whose text does not break off. -/
def skipped : Decoder Unit := fun json =>
  if json.isBroken then refuse else .ok ()

mutual

/-- A value without flaw, in its parts too. -/
def flawless : Decoder Unit
  | .array values => flawlessElements 0 values
  | .object members => flawlessMembers members
  | .flawed begun flaw => do
      flawless begun
      refuseFlaw flaw
  | _ => .ok ()

/-- Elements without flaw, of which `index` is the first. -/
def flawlessElements : (index : Nat) → List Json → Except Place Unit
  | _, [] => .ok ()
  | index, value :: values => do
      inside (.element index) (flawless value)
      flawlessElements (index + 1) values

/-- Members without flaw. -/
def flawlessMembers : List (String × Json) → Except Place Unit
  | [] => .ok ()
  | (key, value) :: members => do
      inside (.member key) (flawless value)
      flawlessMembers members

end

/-! ## Plain values -/

def bool : Decoder Bool
  | .bool value => .ok value
  | _ => refuse

def string : Decoder String
  | .string text => .ok text
  | _ => refuse

/-- A natural number below a limit. -/
def naturalBelow (limit : Nat) : Decoder Nat
  | .natural value => if value < limit then .ok value else refuse
  | _ => refuse

/-- A number of a table, or a number of players: 64 bits. -/
def word64 : Decoder Nat :=
  naturalBelow (Nat.pow 2 64)

theorem word64_natural {value : Nat} (hlt : value < Nat.pow 2 64) :
    word64 (.natural value) = .ok value :=
  if_pos hlt

/-- A count: 32 bits. -/
def word32 : Decoder Nat :=
  naturalBelow (Nat.pow 2 32)

/-- A name of one of several cases. -/
def case (ofName? : String → Option α) : Decoder α
  | .string name => ofOption (ofName? name)
  | .object [(name, .null)] => ofOption (ofName? name)
  | _ => refuse

/-- A value, or `null` for none. -/
def nullable (decoder : Decoder α) : Decoder (Option α)
  | .null => .ok none
  | json => (decoder json).map some

/-! ## Lists and dictionaries -/

/-- The values of elements, of which `index` is the first. -/
def elements (decoder : Decoder α) : (index : Nat) → List Json → Except Place (List α)
  | _, [] => .ok []
  | index, element :: rest => do
      let first ← inside (.element index) (decoder element)
      let others ← elements decoder (index + 1) rest
      .ok (first :: others)

/-- An array of values. -/
def list (decoder : Decoder α) : Decoder (List α) := fun json =>
  match json.begun with
  | .array values => elements decoder 0 values >>= complete json
  | _ => refuse

theorem list_array (decoder : Decoder α) (values : List Json) :
    list decoder (.array values) = elements decoder 0 values := by
  change elements decoder 0 values >>= complete (.array values) = _
  cases elements decoder 0 values <;> rfl

/-- The values of members. -/
def entries (decoder : Decoder α) : List (String × Json) → Except Place (List (String × α))
  | [] => .ok []
  | (key, value) :: members => do
      let first ← inside (.member key) (decoder value)
      let others ← entries decoder members
      .ok ((key, first) :: others)

/-- An object from names to values.  A repeated name keeps its last value. -/
def dict (decoder : Decoder α) : Decoder (Dict String α)
  | .object members => (entries decoder members).map Dict.ofList
  | _ => refuse

/-! ## Records -/

/-- The fields of a record in their order, those that an object must have, and how
many an array must have. -/
structure Shape where
  fields : List String
  required : List String
  least : Nat

/-- The record in which a field got its value. -/
abbrev Assign (ρ : Type) :=
  ρ → String → Json → Except Place ρ

/-- Assign known members, none of them twice, and see whether others can be skipped.
`seen` are the known ones before. -/
def assignMembers {ρ : Type} (fields : List String) (assign : Assign ρ)
    (skip : Decoder Unit) :
    (seen : List String) → ρ → List (String × Json) → Except Place (ρ × List String)
  | seen, record, [] => .ok (record, seen)
  | seen, record, (key, value) :: members =>
      if key ∈ fields then
        if key ∈ seen then refuse
        else do
          let record ← inside (.member key) (assign record key value)
          assignMembers fields assign skip (key :: seen) record members
      else do
        inside (.member key) (skip value)
        assignMembers fields assign skip seen record members

/-- Assign elements to fields by their order. -/
def assignElements {ρ : Type} (assign : Assign ρ) :
    (index : Nat) → ρ → List String → List Json → Except Place ρ
  | index, record, field :: fields, element :: rest => do
      let record ← inside (.element index) (assign record field element)
      assignElements assign (index + 1) record fields rest
  | _, record, _, _ => .ok record

/-- The record that an object of a shape describes, of which `members` are the members
before a flaw. -/
def recordOfMembers {ρ : Type} (shape : Shape) (initial : ρ) (assign : Assign ρ)
    (skip : Decoder Unit) (json : Json) (members : List (String × Json)) :
    Except Place ρ := do
  let (record, seen) ← assignMembers shape.fields assign skip [] initial members
  complete json ()
  if shape.required.all (· ∈ seen) then .ok record else refuse

/-- A record.  Fields that are not given keep the value they have in `initial`. -/
def record {ρ : Type} (shape : Shape) (initial : ρ) (assign : Assign ρ) : Decoder ρ :=
  fun json =>
    match json.begun with
    | .object members => recordOfMembers shape initial assign skipped json members
    | .array values => do
        let record ← assignElements assign 0 initial shape.fields values
        if shape.least ≤ values.length ∧ values.length ≤ shape.fields.length then
          complete json record
        else refuse
    | _ => refuse

theorem record_object {ρ : Type} (shape : Shape) (initial : ρ) (assign : Assign ρ)
    (members : List (String × Json)) :
    record shape initial assign (.object members) =
      recordOfMembers shape initial assign skipped (.object members) members :=
  rfl

/-- A record with a single field. -/
def single (field : String) (decoder : Decoder α) : Decoder α := fun json => do
  let value? ← record ⟨[field], [field], 1⟩ none (fun _ _ value => (decoder value).map some) json
  ofOption value?

/-- A record without fields. -/
def fieldless (value : α) : Decoder α :=
  record ⟨[], [], 0⟩ value fun _ _ _ => refuse

/-! ## Variants -/

/-- The variants of a value: the name of each, and the decoder of its fields. -/
abbrev Variants (α : Type) :=
  List (String × Decoder α)

/-- The variant that a tag names. -/
def variantNamed? (variants : Variants α) : Json → Option (Decoder α)
  | .string name => variants.lookup name
  | _ => none

/-- The variant that a tag names or numbers. -/
def variantAt? (variants : Variants α) : Json → Option (Decoder α)
  | .natural index => variants[index]?.map Prod.snd
  | tag => variantNamed? variants tag

/-- A value whose member `type`, or whose first element, is the tag of its variant. -/
def taggedValue (variantOf? : Json → Option (Decoder α)) : Decoder α
  | .object members =>
      match members.partition fun member => member.1 == "type" with
      | ([(_, tag)], fields) =>
          ofOption (variantOf? tag) >>= fun variant => variant (.object fields)
      | _ => refuse
  | .array (tag :: fields) =>
      ofOption (variantOf? tag) >>= fun variant => variant (.array fields)
  | _ => refuse

/-- A value with a tag.  It has no flaw, even where it would be skipped, because its
parts are kept until the tag is known. -/
def tagged (variantOf? : Json → Option (Decoder α)) : Decoder α := fun json => do
  flawless json
  taggedValue variantOf? json

end Decoder

end SeedLogic.Json
