import SeedLogic.Formula

/-!
# Normal requirements

The builders build normal requirements from normal parts, so that every compiled formula
is normal (`normal_compile`).  From the operands of a normal requirement, its builder
builds it again (`makeAnd_of_normal`, …).
-/

namespace SeedLogic.Requirement

/-! ## Operands -/

/-- What a conjunction takes over from a normal part can stand in it. -/
theorem normal_of_mem_andOperands {part operand : Requirement} (hnormal : part.Normal)
    (hfalse : part.isConst false = false) (hmem : operand ∈ part.andOperands) :
    operand.Normal ∧ operand.isConstant = false ∧ operand.isAnd = false := by
  cases part with
  | const value =>
      cases value with
      | true => cases hmem
      | false => cases hfalse
  | and operands =>
      cases hnormal with
      | and _ hoperands hshapes => exact ⟨hoperands operand hmem, hshapes operand hmem⟩
  | _ =>
      cases List.mem_singleton.mp hmem
      exact ⟨hnormal, rfl, rfl⟩

/-- What a disjunction takes over from a normal part can stand in it. -/
theorem normal_of_mem_orOperands {part operand : Requirement} (hnormal : part.Normal)
    (htrue : part.isConst true = false) (hmem : operand ∈ part.orOperands) :
    operand.Normal ∧ operand.isConstant = false ∧ operand.isOr = false := by
  cases part with
  | const value =>
      cases value with
      | true => cases htrue
      | false => cases hmem
  | or operands =>
      cases hnormal with
      | or _ hoperands hshapes => exact ⟨hoperands operand hmem, hshapes operand hmem⟩
  | _ =>
      cases List.mem_singleton.mp hmem
      exact ⟨hnormal, rfl, rfl⟩

/-! ## Builders -/

section Builders

variable {parts : List Requirement} (hparts : ∀ part ∈ parts, part.Normal)
include hparts

theorem normal_makeAnd : (makeAnd parts).Normal := by
  unfold makeAnd
  split
  case isTrue => exact .const false
  case isFalse hfalse =>
    have hoperands : ∀ operand ∈ parts.flatMap andOperands,
        operand.Normal ∧ operand.isConstant = false ∧ operand.isAnd = false := by
      intro operand hmem
      rcases List.mem_flatMap.mp hmem with ⟨part, hpart, hoperand⟩
      have hconst : part.isConst false = false :=
        Bool.eq_false_iff.mpr fun hconst => hfalse (List.any_eq_true.mpr ⟨part, hpart, hconst⟩)
      exact normal_of_mem_andOperands (hparts part hpart) hconst hoperand
    split
    case h_1 => exact .const true
    case h_2 single hsingle => exact (hoperands single (hsingle ▸ List.mem_cons_self)).1
    case h_3 hmany hsingle =>
      refine .and ?_ (fun operand hmem => (hoperands operand hmem).1)
        (fun operand hmem => (hoperands operand hmem).2)
      rcases hlist : parts.flatMap andOperands with _ | ⟨first, _ | ⟨second, rest⟩⟩
      · exact absurd hlist hmany
      · exact absurd hlist (hsingle first)
      · simp

theorem normal_makeOr : (makeOr parts).Normal := by
  unfold makeOr
  split
  case isTrue => exact .const true
  case isFalse htrue =>
    have hoperands : ∀ operand ∈ parts.flatMap orOperands,
        operand.Normal ∧ operand.isConstant = false ∧ operand.isOr = false := by
      intro operand hmem
      rcases List.mem_flatMap.mp hmem with ⟨part, hpart, hoperand⟩
      have hconst : part.isConst true = false :=
        Bool.eq_false_iff.mpr fun hconst => htrue (List.any_eq_true.mpr ⟨part, hpart, hconst⟩)
      exact normal_of_mem_orOperands (hparts part hpart) hconst hoperand
    split
    case h_1 => exact .const false
    case h_2 single hsingle => exact (hoperands single (hsingle ▸ List.mem_cons_self)).1
    case h_3 hmany hsingle =>
      refine .or ?_ (fun operand hmem => (hoperands operand hmem).1)
        (fun operand hmem => (hoperands operand hmem).2)
      rcases hlist : parts.flatMap orOperands with _ | ⟨first, _ | ⟨second, rest⟩⟩
      · exact absurd hlist hmany
      · exact absurd hlist (hsingle first)
      · simp

theorem normal_makeAtLeast (count : Nat) : (makeAtLeast count parts).Normal := by
  unfold makeAtLeast
  split
  case isTrue => exact .const true
  case isFalse hzero =>
    split
    case isTrue => exact .const false
    case isFalse hfew =>
      split
      case isTrue => exact normal_makeOr hparts
      case isFalse hone =>
        split
        case isTrue => exact normal_makeAnd hparts
        case isFalse hall => exact .atLeast (by omega) (by omega) hparts

end Builders

theorem normal_makeNot {operand : Requirement} (hnormal : operand.Normal) :
    (makeNot operand).Normal := by
  cases operand with
  | const value => exact .const !value
  | _ => exact .not hnormal rfl

end SeedLogic.Requirement

namespace SeedLogic.Formula

mutual

/-- Every formula is compiled to a normal requirement. -/
theorem normal_compile (symbols : Symbols) :
    ∀ formula : Formula, (formula.compile symbols).Normal
  | .const value => by
      rw [compile]
      exact .const value
  | .item name count => by
      rw [compile]
      exact .hasItem _ count
  | .event name => by
      rw [compile]
      exact .hasEvent _
  | .setting key => by
      rw [compile]
      exact .setting _
  | .not operand => by
      rw [compile]
      exact Requirement.normal_makeNot (normal_compile symbols operand)
  | .all operands => by
      rw [compile]
      exact Requirement.normal_makeAnd (normal_compileAll symbols operands)
  | .any operands => by
      rw [compile]
      exact Requirement.normal_makeOr (normal_compileAll symbols operands)
  | .atLeast count operands => by
      rw [compile]
      exact Requirement.normal_makeAtLeast (normal_compileAll symbols operands) count

theorem normal_compileAll (symbols : Symbols) :
    ∀ operands : List Formula, ∀ part ∈ compileAll symbols operands, part.Normal
  | [], part, hpart => by
      rw [compileAll] at hpart
      cases hpart
  | operand :: operands, part, hpart => by
      rw [compileAll, List.mem_cons] at hpart
      rcases hpart with rfl | hpart
      · exact normal_compile symbols operand
      · exact normal_compileAll symbols operands part hpart

end

end SeedLogic.Formula

/-! ## Building again -/

namespace SeedLogic.Requirement

variable {operands : List Requirement}

theorem isConst_of_isConstant {operand : Requirement} (hshape : operand.isConstant = false)
    (value : Bool) : operand.isConst value = false := by
  cases operand with
  | const => cases hshape
  | _ => rfl

/-- Parts that contribute themselves alone are all contributed. -/
theorem flatMap_eq_self {contribution : Requirement → List Requirement}
    (hself : ∀ operand ∈ operands, contribution operand = [operand]) :
    operands.flatMap contribution = operands := by
  rw [List.flatMap_def, List.map_congr_left hself, ← List.flatMap_def, List.flatMap_singleton']

theorem makeAnd_of_normal (hnormal : (Requirement.and operands).Normal) :
    makeAnd operands = .and operands := by
  cases hnormal with
  | and hlength _ hshapes =>
      have hself : operands.flatMap andOperands = operands := by
        apply flatMap_eq_self
        intro operand hmem
        rcases hshapes operand hmem with ⟨hconstant, hand⟩
        cases operand with
        | const => cases hconstant
        | and => cases hand
        | _ => rfl
      have hfalse : operands.any (isConst false) = false :=
        List.any_eq_false.mpr fun operand hmem => by
          rw [isConst_of_isConstant (hshapes operand hmem).1]
          exact Bool.false_ne_true
      rw [makeAnd, hfalse, hself, if_neg Bool.false_ne_true]
      rcases operands with _ | ⟨first, _ | ⟨second, rest⟩⟩
      · cases hlength
      · exact absurd hlength (by simp)
      · rfl

theorem makeOr_of_normal (hnormal : (Requirement.or operands).Normal) :
    makeOr operands = .or operands := by
  cases hnormal with
  | or hlength _ hshapes =>
      have hself : operands.flatMap orOperands = operands := by
        apply flatMap_eq_self
        intro operand hmem
        rcases hshapes operand hmem with ⟨hconstant, hor⟩
        cases operand with
        | const => cases hconstant
        | or => cases hor
        | _ => rfl
      have htrue : operands.any (isConst true) = false :=
        List.any_eq_false.mpr fun operand hmem => by
          rw [isConst_of_isConstant (hshapes operand hmem).1]
          exact Bool.false_ne_true
      rw [makeOr, htrue, hself, if_neg Bool.false_ne_true]
      rcases operands with _ | ⟨first, _ | ⟨second, rest⟩⟩
      · cases hlength
      · exact absurd hlength (by simp)
      · rfl

theorem makeNot_of_normal {operand : Requirement} (hnormal : (Requirement.not operand).Normal) :
    makeNot operand = .not operand := by
  cases hnormal with
  | not _ hshape =>
      cases operand with
      | const => cases hshape
      | _ => rfl

theorem makeAtLeast_of_normal {count : Nat}
    (hnormal : (Requirement.atLeast count operands).Normal) :
    makeAtLeast count operands = .atLeast count operands := by
  cases hnormal with
  | atLeast hleast hmost _ =>
      rw [makeAtLeast, if_neg (by omega), if_neg (by omega), if_neg (by omega), if_neg (by omega)]

end SeedLogic.Requirement
