import SeedLogic.Formula
import SeedLogic.Requirement.Evaluation

/-!
# Shapes of requirements

The shape of a requirement is what is left when its numbers are forgotten.  Builders look at
shapes alone, so that what a formula compiles to has one shape under all symbols
(`shape_compile`).  Polarity is one of the things that a shape has (`positive_compile_iff`).
-/

namespace SeedLogic

namespace Requirement

mutual

/-- The requirement with every item, event and setting numbered zero. -/
def shape : Requirement → Requirement
  | .const value => .const value
  | .hasItem _ count => .hasItem 0 count
  | .hasEvent _ => .hasEvent 0
  | .not operand => .not (shape operand)
  | .and operands => .and (shapeAll operands)
  | .or operands => .or (shapeAll operands)
  | .atLeast count operands => .atLeast count (shapeAll operands)
  | .setting _ => .setting 0

/-- The shapes of several requirements. -/
def shapeAll : List Requirement → List Requirement
  | [] => []
  | operand :: operands => shape operand :: shapeAll operands

end

theorem shapeAll_eq_map (operands : List Requirement) :
    shapeAll operands = operands.map shape := by
  induction operands with
  | nil => rw [shapeAll, List.map_nil]
  | cons operand operands ih => rw [shapeAll, ih, List.map_cons]

/-! ## Builders -/

theorem isConst_shape (value : Bool) (part : Requirement) :
    part.shape.isConst value = part.isConst value := by
  cases part <;> rfl

theorem any_isConst_map_shape (value : Bool) (parts : List Requirement) :
    (parts.map shape).any (isConst value) = parts.any (isConst value) := by
  rw [List.any_map]
  congr 1
  funext part
  exact isConst_shape value part

theorem andOperands_shape (part : Requirement) :
    part.shape.andOperands = part.andOperands.map shape := by
  cases part with
  | const value => cases value <;> simp [shape, andOperands]
  | _ => simp [shape, andOperands, shapeAll_eq_map]

theorem orOperands_shape (part : Requirement) :
    part.shape.orOperands = part.orOperands.map shape := by
  cases part with
  | const value => cases value <;> simp [shape, orOperands]
  | _ => simp [shape, orOperands, shapeAll_eq_map]

theorem shape_makeAnd (parts : List Requirement) :
    (makeAnd parts).shape = makeAnd (parts.map shape) := by
  have hoperands : (parts.map shape).flatMap andOperands =
      (parts.flatMap andOperands).map shape := by
    rw [List.flatMap_map, List.map_flatMap]
    congr 1
    funext part
    exact andOperands_shape part
  simp only [makeAnd, any_isConst_map_shape, hoperands]
  split
  case isTrue => simp [shape]
  case isFalse =>
    rcases parts.flatMap andOperands with _ | ⟨first, _ | ⟨second, others⟩⟩
    · simp [shape]
    · simp
    · simp [shape, shapeAll_eq_map]

theorem shape_makeOr (parts : List Requirement) :
    (makeOr parts).shape = makeOr (parts.map shape) := by
  have hoperands : (parts.map shape).flatMap orOperands =
      (parts.flatMap orOperands).map shape := by
    rw [List.flatMap_map, List.map_flatMap]
    congr 1
    funext part
    exact orOperands_shape part
  simp only [makeOr, any_isConst_map_shape, hoperands]
  split
  case isTrue => simp [shape]
  case isFalse =>
    rcases parts.flatMap orOperands with _ | ⟨first, _ | ⟨second, others⟩⟩
    · simp [shape]
    · simp
    · simp [shape, shapeAll_eq_map]

theorem shape_makeNot (operand : Requirement) :
    (makeNot operand).shape = makeNot operand.shape := by
  cases operand <;> rfl

theorem shape_makeAtLeast (count : Nat) (parts : List Requirement) :
    (makeAtLeast count parts).shape = makeAtLeast count (parts.map shape) := by
  simp only [makeAtLeast, List.length_map, apply_ite shape, shape_makeAnd, shape_makeOr, shape,
    shapeAll_eq_map]

/-! ## Polarity -/

mutual

/-- Polarity is a matter of shape. -/
theorem polarized_shape (even : Bool) : ∀ requirement : Requirement,
    requirement.shape.polarized even = requirement.polarized even
  | .const _ => by rw [shape]
  | .hasItem _ _ => by rw [shape, polarized, polarized]
  | .hasEvent _ => by rw [shape, polarized, polarized]
  | .not operand => by rw [shape, polarized, polarized, polarized_shape (!even) operand]
  | .and operands => by rw [shape, polarized, polarized, polarizedAll_shapeAll even operands]
  | .or operands => by rw [shape, polarized, polarized, polarizedAll_shapeAll even operands]
  | .atLeast _ operands => by
      rw [shape, polarized, polarized, polarizedAll_shapeAll even operands]
  | .setting _ => by rw [shape, polarized, polarized]

theorem polarizedAll_shapeAll (even : Bool) : ∀ operands : List Requirement,
    polarizedAll even (shapeAll operands) = polarizedAll even operands
  | [] => by rw [shapeAll]
  | operand :: operands => by
      rw [shapeAll, polarizedAll, polarizedAll, polarized_shape even operand,
        polarizedAll_shapeAll even operands]

end

end Requirement

namespace Formula

variable (left right : Symbols)

mutual

/-- What a formula compiles to has one shape, however its names are numbered. -/
theorem shape_compile : ∀ formula : Formula,
    (formula.compile left).shape = (formula.compile right).shape
  | .const _ => by rw [compile, compile]
  | .item _ _ => by rw [compile, compile, Requirement.shape, Requirement.shape]
  | .event _ => by rw [compile, compile, Requirement.shape, Requirement.shape]
  | .setting _ => by rw [compile, compile, Requirement.shape, Requirement.shape]
  | .not operand => by
      rw [compile, compile, Requirement.shape_makeNot, Requirement.shape_makeNot,
        shape_compile operand]
  | .all operands => by
      rw [compile, compile, Requirement.shape_makeAnd, Requirement.shape_makeAnd,
        shape_compileAll operands]
  | .any operands => by
      rw [compile, compile, Requirement.shape_makeOr, Requirement.shape_makeOr,
        shape_compileAll operands]
  | .atLeast count operands => by
      rw [compile, compile, Requirement.shape_makeAtLeast, Requirement.shape_makeAtLeast,
        shape_compileAll operands]

theorem shape_compileAll : ∀ operands : List Formula,
    (compileAll left operands).map Requirement.shape =
      (compileAll right operands).map Requirement.shape
  | [] => by rw [compileAll, compileAll]
  | operand :: operands => by
      rw [compileAll, compileAll, List.map_cons, List.map_cons, shape_compile operand,
        shape_compileAll operands]

end

/-- Whether a formula compiles to a positive requirement is no matter of numbers. -/
theorem positive_compile_iff (formula : Formula) :
    (formula.compile left).Positive ↔ (formula.compile right).Positive := by
  unfold Requirement.Positive
  rw [← Requirement.polarized_shape, formula.shape_compile left right,
    Requirement.polarized_shape]

end Formula

end SeedLogic
