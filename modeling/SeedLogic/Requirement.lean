import SeedLogic.Symbols

/-!
# Requirements

A `Requirement` is what must hold before a player gets through: a Boolean
combination of item counts, events and settings, which it names by number.  The
builders `makeAnd`, `makeOr`, `makeNot` and `makeAtLeast` fold constants and
merge nested operands, so that what they build from normal parts is normal.
-/

namespace SeedLogic

/-- A condition over items, events and settings. -/
inductive Requirement where
  | const (value : Bool)
  | hasItem (item count : Nat)
  | hasEvent (event : Nat)
  | not (operand : Requirement)
  | and (operands : List Requirement)
  | or (operands : List Requirement)
  | atLeast (count : Nat) (operands : List Requirement)
  | setting (id : Nat)
  deriving Repr

instance : Inhabited Requirement :=
  ⟨.const true⟩

namespace Requirement

/-! ## Builders -/

/-- The operands that a conjunction takes over from one part: those of a nested
conjunction, none of a true constant. -/
def andOperands : Requirement → List Requirement
  | .const true => []
  | .and operands => operands
  | part => [part]

/-- The operands that a disjunction takes over from one part. -/
def orOperands : Requirement → List Requirement
  | .const false => []
  | .or operands => operands
  | part => [part]

/-- Is the requirement this constant? -/
def isConst (value : Bool) : Requirement → Bool
  | .const other => other == value
  | _ => false

/-- The conjunction of requirements. -/
def makeAnd (parts : List Requirement) : Requirement :=
  if parts.any (isConst false) then .const false
  else
    match parts.flatMap andOperands with
    | [] => .const true
    | [single] => single
    | operands => .and operands

/-- The disjunction of requirements. -/
def makeOr (parts : List Requirement) : Requirement :=
  if parts.any (isConst true) then .const true
  else
    match parts.flatMap orOperands with
    | [] => .const false
    | [single] => single
    | operands => .or operands

/-- The negation of a requirement. -/
def makeNot : Requirement → Requirement
  | .const value => .const !value
  | operand => .not operand

/-- The requirement that at least `count` of the parts hold. -/
def makeAtLeast (count : Nat) (parts : List Requirement) : Requirement :=
  if count = 0 then .const true
  else if count > parts.length then .const false
  else if count = 1 then makeOr parts
  else if count = parts.length then makeAnd parts
  else .atLeast count parts

@[simp]
theorem makeAnd_nil : makeAnd [] = .const true :=
  rfl

@[simp]
theorem makeOr_nil : makeOr [] = .const false :=
  rfl

@[simp]
theorem makeNot_const (value : Bool) : makeNot (.const value) = .const !value :=
  rfl

@[simp]
theorem makeAtLeast_zero (parts : List Requirement) : makeAtLeast 0 parts = .const true :=
  rfl

/-! ## Shapes -/

/-- A conjunction. -/
def isAnd : Requirement → Bool
  | .and _ => true
  | _ => false

/-- A disjunction. -/
def isOr : Requirement → Bool
  | .or _ => true
  | _ => false

/-- A constant. -/
def isConstant : Requirement → Bool
  | .const _ => true
  | _ => false

/-- Normal requirements: conjunctions and disjunctions have at least two
operands, none of them a constant or of their own kind; a negation is of no
constant; and a count lies strictly between one and the number of operands. -/
inductive Normal : Requirement → Prop where
  | const (value : Bool) : Normal (.const value)
  | hasItem (item count : Nat) : Normal (.hasItem item count)
  | hasEvent (event : Nat) : Normal (.hasEvent event)
  | setting (id : Nat) : Normal (.setting id)
  | not {operand : Requirement} : Normal operand → operand.isConstant = false →
      Normal (.not operand)
  | and {operands : List Requirement} : 2 ≤ operands.length →
      (∀ operand ∈ operands, Normal operand) →
      (∀ operand ∈ operands, operand.isConstant = false ∧ operand.isAnd = false) →
      Normal (.and operands)
  | or {operands : List Requirement} : 2 ≤ operands.length →
      (∀ operand ∈ operands, Normal operand) →
      (∀ operand ∈ operands, operand.isConstant = false ∧ operand.isOr = false) →
      Normal (.or operands)
  | atLeast {count : Nat} {operands : List Requirement} : 2 ≤ count →
      count < operands.length → (∀ operand ∈ operands, Normal operand) →
      Normal (.atLeast count operands)

end Requirement

end SeedLogic
