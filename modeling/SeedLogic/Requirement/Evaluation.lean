import SeedLogic.Inventory
import SeedLogic.Requirement

/-!
# Evaluation of requirements

A requirement is evaluated in the situation of one player: the items, the events
obtained, and the settings.  `AtLeast` is the meaning of a count on its own, and
`Positive` marks the requirements that more items and events cannot falsify.
-/

namespace SeedLogic

/-- What a requirement is evaluated against. -/
structure Situation where
  inventory : Inventory
  events : Flags
  settings : Flags

namespace Requirement

mutual

/-- Does the requirement hold? -/
def eval (situation : Situation) : Requirement → Bool
  | .const value => value
  | .hasItem item count => count ≤ situation.inventory.count item
  | .hasEvent event => situation.events.has event
  | .not operand => !eval situation operand
  | .and operands => evalAll situation operands
  | .or operands => evalAny situation operands
  | .atLeast count operands => count ≤ evalCount situation operands
  | .setting id => situation.settings.has id

/-- Do all requirements hold? -/
def evalAll (situation : Situation) : List Requirement → Bool
  | [] => true
  | operand :: operands => eval situation operand && evalAll situation operands

/-- Does some requirement hold? -/
def evalAny (situation : Situation) : List Requirement → Bool
  | [] => false
  | operand :: operands => eval situation operand || evalAny situation operands

/-- How many requirements hold? -/
def evalCount (situation : Situation) : List Requirement → Nat
  | [] => 0
  | operand :: operands => (eval situation operand).toNat + evalCount situation operands

end

theorem evalAll_eq_all (situation : Situation) (operands : List Requirement) :
    evalAll situation operands = operands.all (eval situation) := by
  induction operands with
  | nil => simp [evalAll]
  | cons operand operands ih => simp [evalAll, ih]

theorem evalAny_eq_any (situation : Situation) (operands : List Requirement) :
    evalAny situation operands = operands.any (eval situation) := by
  induction operands with
  | nil => simp [evalAny]
  | cons operand operands ih => simp [evalAny, ih]

theorem evalCount_eq_countP (situation : Situation) (operands : List Requirement) :
    evalCount situation operands = operands.countP (eval situation) := by
  induction operands with
  | nil => simp [evalCount]
  | cons operand operands ih =>
      rw [evalCount, ih, List.countP_cons, Nat.add_comm]
      cases eval situation operand <;> rfl

/-! ## Polarity -/

mutual

/-- Every item and event lies under an even number of negations, when `even`
holds, and under an odd number otherwise. -/
def polarized (even : Bool) : Requirement → Bool
  | .const _ => true
  | .hasItem _ _ => even
  | .hasEvent _ => even
  | .not operand => polarized (!even) operand
  | .and operands => polarizedAll even operands
  | .or operands => polarizedAll even operands
  | .atLeast _ operands => polarizedAll even operands
  | .setting _ => true

/-- Every requirement of a list is polarized. -/
def polarizedAll (even : Bool) : List Requirement → Bool
  | [] => true
  | operand :: operands => polarized even operand && polarizedAll even operands

end

/-- Every item and event lies under an even number of negations. -/
def Positive (requirement : Requirement) : Prop :=
  requirement.polarized true = true

instance (requirement : Requirement) : Decidable requirement.Positive :=
  inferInstanceAs (Decidable (requirement.polarized true = true))

end Requirement

end SeedLogic
