import SeedLogic.Proofs.Formula.Describing
import SeedLogic.Proofs.Requirement.Builders

/-!
# Normal form

The builders change neither what their parts mean nor that they are normal, and a
requirement text is read by builders alone: whatever has been read is normal, and asks for
at least one of every item it counts (`Requirement.built_normal`).
-/

namespace SeedLogic.Requirement

/-- Whatever has been read asks for at least one of every item it counts. -/
theorem one_le_of_parse {game : Game} {macros : MacroTable} {symbols later : Symbols}
    {text : String} {requirement : Requirement}
    (hparse : Requirement.parse game macros symbols text = (.ok requirement, later))
    {item count : Nat} (hatom : Atom.item item count ∈ requirement.atoms) : 1 ≤ count := by
  have hwrites := (writes_of_parse hparse).2 _ hatom
  rcases Symbols.exists_item_of_writes hwrites with ⟨_, _, _, _, _, hpositive, _⟩
  exact hpositive

/-- What is built holds when all of the parts do, some part, at least so many of them, or
not the operand; from normal parts it is normal; and whatever has been read is normal and
asks for at least one of every item. -/
theorem built_normal :
    (∀ (situation : Situation) (parts : List Requirement) (count : Nat)
        (operand : Requirement),
      (makeAnd parts).eval situation = parts.all (eval situation) ∧
      (makeOr parts).eval situation = parts.any (eval situation) ∧
      (makeAtLeast count parts).eval situation = (Requirement.atLeast count parts).eval situation ∧
      (makeAtLeast count parts).eval situation =
        decide (count ≤ parts.countP (eval situation)) ∧
      (makeNot operand).eval situation = !operand.eval situation) ∧
    (∀ parts : List Requirement, (∀ part ∈ parts, part.Normal) →
      (makeAnd parts).Normal ∧ (makeOr parts).Normal ∧
      ∀ count, (makeAtLeast count parts).Normal) ∧
    (∀ operand : Requirement, operand.Normal → (makeNot operand).Normal) ∧
    ∀ (game : Game) (macros : MacroTable) (symbols later : Symbols) (text : String)
        (requirement : Requirement),
      Requirement.parse game macros symbols text = (.ok requirement, later) →
      requirement.Normal ∧
      ∀ item count, Atom.item item count ∈ requirement.atoms → 1 ≤ count := by
  refine ⟨?meaning, ?parts, ?operand, ?read⟩
  case meaning =>
    intro situation parts count operand
    have hcount := eval_makeAtLeast situation count parts
    refine ⟨eval_makeAnd situation parts, eval_makeOr situation parts, ?_, hcount,
      eval_makeNot situation operand⟩
    rw [hcount, eval_atLeast]
  case parts =>
    intro parts hparts
    exact ⟨normal_makeAnd hparts, normal_makeOr hparts, normal_makeAtLeast hparts⟩
  case operand =>
    intro operand hnormal
    exact normal_makeNot hnormal
  case read =>
    intro game macros symbols later text requirement hparse
    exact ⟨(writes_of_parse hparse).1, fun _ _ hatom => one_le_of_parse hparse hatom⟩

/-- Parts of which one is left of a disjunction whose other part cannot hold. -/
def gates : List Requirement :=
  [makeOr [makeAnd [.hasItem 0 1, .const false], .hasEvent 0], .and [.hasItem 0 1, .hasEvent 1],
    .not (.hasItem 0 2)]

theorem normal_gates : ∀ part ∈ gates, part.Normal := by
  have hand : (Requirement.and [.hasItem 0 1, .hasEvent 1]).Normal := by
    refine .and (Nat.le_refl 2) ?_ ?_ <;> simp only [List.forall_mem_cons]
    · exact ⟨.hasItem 0 1, .hasEvent 1, nofun⟩
    · exact ⟨⟨rfl, rfl⟩, ⟨rfl, rfl⟩, nofun⟩
  simp only [gates, List.forall_mem_cons]
  exact ⟨.hasEvent 0, hand, .not (.hasItem 0 2) rfl, nofun⟩

/-- All of three parts must hold, so that the count is one flat conjunction; and a macro is
expanded to a count of less than its operands. -/
theorem built_normal_gates :
    (∀ situation, (makeAtLeast 3 gates).eval situation =
      decide (3 ≤ gates.countP (eval situation))) ∧
    makeAtLeast 3 gates = .and [.hasEvent 0, .hasItem 0 1, .hasEvent 1, .not (.hasItem 0 2)] ∧
    (makeAtLeast 3 gates).Normal ∧ (makeNot (.hasItem 0 1)).Normal ∧
    ∃ requirement later,
      Requirement.parse .mm ⟨[dawn]⟩ .empty
        "at_least(2, dawn(has(OOT_BOW, 2) & HOOK), KEY & (true & HOOK), at_least(1, HOOK))" =
          (.ok requirement, later) ∧
      requirement.Normal ∧ Atom.item 0 2 ∈ requirement.atoms ∧ 1 ≤ 2 := by
  rcases built_normal with ⟨hmeaning, hparts, hoperand, hread⟩
  obtain ⟨requirement, hparse⟩ : ∃ requirement, Requirement.parse .mm ⟨[dawn]⟩ .empty
      "at_least(2, dawn(has(OOT_BOW, 2) & HOOK), KEY & (true & HOOK), at_least(1, HOOK))" =
        (.ok requirement, _) := ⟨_, rfl⟩
  have hform := hread _ _ _ _ _ _ hparse
  have hatom : Atom.item 0 2 ∈ requirement.atoms := by
    cases hparse
    decide +kernel
  refine ⟨fun situation => (hmeaning situation gates 3 (.const true)).2.2.2.1, rfl,
    (hparts gates normal_gates).2.2 3, hoperand _ (.hasItem 0 1), requirement, _, hparse, hform.1,
    hatom, hform.2 0 2 hatom⟩

end SeedLogic.Requirement
