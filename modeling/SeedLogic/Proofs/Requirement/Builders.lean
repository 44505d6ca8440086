import SeedLogic.Requirement.Evaluation

/-!
# Meaning of the builders

Folding constants and merging nested operands does not change what a requirement
means: a built conjunction holds when all of its parts do (`eval_makeAnd`), a built
disjunction when some part does, and a built count when enough of them do
(`eval_makeAtLeast`).
-/

namespace SeedLogic.Requirement

variable (situation : Situation)

@[simp]
theorem eval_and (operands : List Requirement) :
    (Requirement.and operands).eval situation = operands.all (eval situation) := by
  rw [eval, evalAll_eq_all]

@[simp]
theorem eval_or (operands : List Requirement) :
    (Requirement.or operands).eval situation = operands.any (eval situation) := by
  rw [eval, evalAny_eq_any]

@[simp]
theorem eval_atLeast (count : Nat) (operands : List Requirement) :
    (Requirement.atLeast count operands).eval situation =
      decide (count ≤ operands.countP (eval situation)) := by
  rw [eval, evalCount_eq_countP]

@[simp]
theorem eval_const (value : Bool) : (Requirement.const value).eval situation = value := by
  rw [eval]

/-! ## Parts -/

/-- The operands that a part contributes to a conjunction hold together when it does. -/
theorem all_andOperands (part : Requirement) :
    part.andOperands.all (eval situation) = part.eval situation := by
  cases part with
  | const value => cases value <;> simp [andOperands]
  | and operands => simp [andOperands]
  | _ => simp [andOperands]

theorem any_orOperands (part : Requirement) :
    part.orOperands.any (eval situation) = part.eval situation := by
  cases part with
  | const value => cases value <;> simp [orOperands]
  | or operands => simp [orOperands]
  | _ => simp [orOperands]

theorem eval_of_isConst {value : Bool} {part : Requirement} (hconst : part.isConst value = true) :
    part.eval situation = value := by
  cases part with
  | const other => simpa [isConst] using hconst
  | _ => cases hconst

/-! ## Builders -/

/-- A conjunction holds when all of its parts do. -/
theorem eval_makeAnd (parts : List Requirement) :
    (makeAnd parts).eval situation = parts.all (eval situation) := by
  have hparts : (parts.flatMap andOperands).all (eval situation) = parts.all (eval situation) := by
    rw [List.all_flatMap]
    simp only [all_andOperands]
  unfold makeAnd
  split
  case isTrue hfalse =>
    rcases List.any_eq_true.mp hfalse with ⟨part, hmem, hconst⟩
    rw [eval_const, eq_comm, List.all_eq_false]
    exact ⟨part, hmem, by simp [eval_of_isConst situation hconst]⟩
  case isFalse =>
    rw [← hparts]
    split
    · next hnil => simp [hnil]
    · next single hsingle => simp [hsingle]
    · simp

/-- A disjunction holds when some part does. -/
theorem eval_makeOr (parts : List Requirement) :
    (makeOr parts).eval situation = parts.any (eval situation) := by
  have hparts : (parts.flatMap orOperands).any (eval situation) = parts.any (eval situation) := by
    rw [List.any_flatMap]
    simp only [any_orOperands]
  unfold makeOr
  split
  case isTrue htrue =>
    rcases List.any_eq_true.mp htrue with ⟨part, hmem, hconst⟩
    rw [eval_const, eq_comm, List.any_eq_true]
    exact ⟨part, hmem, eval_of_isConst situation hconst⟩
  case isFalse =>
    rw [← hparts]
    split
    · next hnil => simp [hnil]
    · next single hsingle => simp [hsingle]
    · simp

/-- A negation holds when its operand does not. -/
theorem eval_makeNot (operand : Requirement) :
    (makeNot operand).eval situation = !operand.eval situation := by
  cases operand <;> simp [makeNot, eval]

/-- A count holds when at least as many of the parts do. -/
theorem eval_makeAtLeast (count : Nat) (parts : List Requirement) :
    (makeAtLeast count parts).eval situation =
      decide (count ≤ parts.countP (eval situation)) := by
  unfold makeAtLeast
  split
  case isTrue hzero => simp [hzero]
  case isFalse hpositive =>
    split
    case isTrue hmany =>
      have hbound := List.countP_le_length (p := eval situation) (l := parts)
      rw [eval_const, eq_comm, decide_eq_false_iff_not]
      omega
    case isFalse hfew =>
      split
      case isTrue hone =>
        rw [eval_makeOr, Bool.eq_iff_iff, List.any_eq_true, decide_eq_true_iff, hone,
          Nat.one_le_iff_ne_zero, Nat.ne_zero_iff_zero_lt, List.countP_pos_iff]
      case isFalse =>
        split
        case isTrue hall =>
          have hbound := List.countP_le_length (p := eval situation) (l := parts)
          rw [eval_makeAnd, Bool.eq_iff_iff, List.all_eq_true, decide_eq_true_iff,
            ← List.countP_eq_length]
          omega
        case isFalse => exact eval_atLeast situation count parts

end SeedLogic.Requirement
