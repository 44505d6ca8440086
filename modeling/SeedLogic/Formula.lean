import SeedLogic.Requirement

/-!
# Formulas

A `Formula` is the syntax tree of a requirement text, with every macro expanded
and every name in full.  `Formula.compile` turns it into a requirement over the
numbers that a symbol table gives to its names.
-/

namespace SeedLogic

/-- The syntax tree of a requirement text. -/
inductive Formula where
  | const (value : Bool)
  | item (name : String) (count : Nat)
  | event (name : String)
  | setting (key : SettingKey)
  | not (operand : Formula)
  | all (operands : List Formula)
  | any (operands : List Formula)
  | atLeast (count : Nat) (operands : List Formula)
  deriving Repr

instance : Inhabited Formula :=
  ⟨.const true⟩

namespace Formula

mutual

/-- The names of a formula, in the order of its text. -/
def mentions : Formula → List Mention
  | .const _ => []
  | .item name _ => [.item name]
  | .event name => [.event name]
  | .setting key => [.setting key]
  | .not operand => mentions operand
  | .all operands => mentionsOfAll operands
  | .any operands => mentionsOfAll operands
  | .atLeast _ operands => mentionsOfAll operands

/-- The names of several formulas. -/
def mentionsOfAll : List Formula → List Mention
  | [] => []
  | operand :: operands => mentions operand ++ mentionsOfAll operands

end

mutual

/-- The requirement of a formula, over the numbers of its names. -/
def compile (symbols : Symbols) : Formula → Requirement
  | .const value => .const value
  | .item name count => .hasItem (symbols.items.idOf name) count
  | .event name => .hasEvent (symbols.events.idOf name)
  | .setting key => .setting (symbols.settings.idOf key)
  | .not operand => .makeNot (compile symbols operand)
  | .all operands => .makeAnd (compileAll symbols operands)
  | .any operands => .makeOr (compileAll symbols operands)
  | .atLeast count operands => .makeAtLeast count (compileAll symbols operands)

/-- The requirements of several formulas. -/
def compileAll (symbols : Symbols) : List Formula → List Requirement
  | [] => []
  | operand :: operands => compile symbols operand :: compileAll symbols operands

end

theorem compileAll_eq_map (symbols : Symbols) (operands : List Formula) :
    compileAll symbols operands = operands.map (compile symbols) := by
  induction operands with
  | nil => simp [compileAll]
  | cons operand operands ih => simp [compileAll, ih]

end Formula

end SeedLogic
