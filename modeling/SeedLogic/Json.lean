/-!
# JSON values

The documents of the program: game tables, settings, placements and spoiler logs.
Objects keep their members as written, with repeated ones, because a reader of a
record refuses repetition.  The program has no use for a number that is not
natural, and keeps such a number as its literal.

A text can be wrong in two ways.  It may break off being JSON.  And it may be JSON
that stands for no value: half of a surrogate pair, a number beyond all
floating-point numbers, arrays and objects that nest too deep.  Nobody minds the
second kind in a value that is skipped.  Of either, `flawed` keeps the parts before
the flaw, so that faults in them come first.
-/

namespace SeedLogic

/-- What is wrong with a value. -/
inductive Flaw where
  | meaningless
  | meaninglessKey
  | broken
  | brokenKey
  deriving DecidableEq, Repr

namespace Flaw

/-- Does the text of the value break off? -/
def isBroken : Flaw → Bool
  | .broken | .brokenKey => true
  | .meaningless | .meaninglessKey => false

/-- Does the flaw lie where an object has a key, or ends? -/
def isInKey : Flaw → Bool
  | .meaninglessKey | .brokenKey => true
  | .meaningless | .broken => false

end Flaw

/-- A JSON value, or the parts of one before a flaw. -/
inductive Json where
  | null
  | bool (value : Bool)
  | natural (value : Nat)
  | numeral (literal : String)
  | string (text : String)
  | array (elements : List Json)
  | object (members : List (String × Json))
  | flawed (begun : Json) (flaw : Flaw)

instance : Inhabited Json :=
  ⟨.null⟩

namespace Json

/-- The flaw of a value, apart from those of its parts. -/
def flaw? : Json → Option Flaw
  | .flawed _ flaw => some flaw
  | _ => none

/-- Does the text of the value break off? -/
def isBroken (json : Json) : Bool :=
  json.flaw?.any Flaw.isBroken

/-- The value, or its parts before a flaw. -/
def begun : Json → Json
  | .flawed begun _ => begun
  | json => json

/-- Is the value an array or an object? -/
def isContainer (json : Json) : Bool :=
  match json.begun with
  | .array _ | .object _ => true
  | _ => false

end Json

end SeedLogic
