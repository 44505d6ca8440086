import SeedLogic.Proofs.Formula.Circles
import SeedLogic.Proofs.Formula.Deepening
import SeedLogic.Proofs.Formula.Halting

/-!
# The depth of macro calls

Macros may call each other without end, and what ends the reading is the bound on the depth of
their calls.  `Requirement.parse_bounded` collects what the bound does: every text is read to an
end, the bound decides nothing but whether calls nest too deep, and macros that call each other
in a circle are always refused.
-/

namespace SeedLogic

namespace Requirement

/-- Reading ends, the depth of macro calls is only a bound, and circles of macros are refused. -/
theorem parse_bounded (game : Game) (macros : MacroTable) :
    (∀ symbols text, parse game macros symbols text = parseAt game macros symbols 0 text) ∧
    (∀ text, ∃ enough, ∀ turns, enough ≤ turns → ∀ crash symbols,
      Limited.parse crash game macros symbols turns text = parse game macros symbols text) ∧
    (∀ symbols text shallow deep, shallow ≤ deep →
      (∀ name limit,
        (parseAt game macros symbols deep text).1 ≠ .error (.recursiveMacro name limit)) →
      parseAt game macros symbols shallow text = parseAt game macros symbols deep text) ∧
    ∀ names : Set String, (∀ value, constantName value ∉ names) → macros.Circular names →
      ∀ text, macros.Exposed names text → ∀ symbols nesting requirement,
        (parseAt game macros symbols nesting text).1 ≠ .ok requirement := by
  refine ⟨fun symbols text => (parseAt_zero game macros symbols text).symm,
    Limited.exists_enough game macros, fun _ _ _ _ => parseAt_eq_of_le, ?_⟩
  intro names hconstant hcircular text hexposed symbols nesting requirement hparse
  have hrefused := Formula.not_read_of_exposed game hconstant hcircular hexposed
    (maxMacroDepth - nesting)
  simp only [parseAt, Recorded.result_mapFault] at hparse
  cases hread : (Formula.read game macros (maxMacroDepth - nesting) text).result with
  | ok formula => exact hrefused formula hread
  | error error =>
      rw [hread] at hparse
      cases hparse

/-! ## Loops -/

/-- Two macros that call each other, and three of which one calls the next. -/
def loopMacros : MacroTable :=
  ⟨[⟨"loop_a", [], "loop_b"⟩, ⟨"loop_b", [], "loop_a | X"⟩,
    ⟨"high", [], "middle(Y) & low"⟩, ⟨"middle", ["it"], "low | it"⟩, ⟨"low", [], "X"⟩]⟩

/-- The names of the loop. -/
def loopNames : Set String :=
  {"loop_a", "loop_b"}

theorem circular_loopMacros : loopMacros.Circular loopNames := by
  rintro name (rfl | rfl)
  · refine ⟨_, rfl, rfl, MacroTable.exposed_of_scan rfl ?_⟩
    exact ⟨[], _, [], "loop_b", rfl, .inr rfl, rfl, nofun, rfl⟩
  · refine ⟨_, rfl, rfl, MacroTable.exposed_of_scan rfl ?_⟩
    exact ⟨[], _, _, "loop_a", rfl, .inl rfl, rfl, by simp [Token.face], rfl⟩

theorem exposed_loop : loopMacros.Exposed loopNames "A & loop_a" := by
  refine MacroTable.exposed_of_scan rfl ?_
  exact ⟨[⟨.ident "A", "A"⟩, ⟨.and, "&"⟩], _, [], "loop_a", rfl, .inl rfl, rfl, nofun, rfl⟩

/-- The loop is refused at every depth.  Three calls in each other are read where three levels
are left, and so they are read alike at the start; where two are left they are refused. -/
theorem parse_bounded_loop :
    (∀ symbols nesting requirement,
      (parseAt .oot loopMacros symbols nesting "A & loop_a").1 ≠ .ok requirement) ∧
    (parseAt .oot loopMacros .empty 29 "A & high").1 =
      .ok (.and [.hasItem 0 1, .or [.hasItem 1 1, .hasItem 2 1], .hasItem 1 1]) ∧
    parseAt .oot loopMacros .empty 0 "A & high" = parseAt .oot loopMacros .empty 29 "A & high" ∧
    (parseAt .oot loopMacros .empty 30 "A & high").1 = .error (.recursiveMacro "low" 32) := by
  obtain ⟨-, -, hdepth, hcircle⟩ := parse_bounded .oot loopMacros
  have hdeep : (parseAt .oot loopMacros .empty 29 "A & high").1 =
      .ok (.and [.hasItem 0 1, .or [.hasItem 1 1, .hasItem 2 1], .hasItem 1 1]) := rfl
  refine ⟨hcircle loopNames ?_ circular_loopMacros _ exposed_loop, hdeep, ?_, rfl⟩
  · intro value
    cases value <;> simp [constantName, loopNames]
  · apply hdepth .empty "A & high" 0 29 (by decide)
    intro name limit hrefused
    cases hdeep.symm.trans hrefused

/-! ## Names that are read as something else -/

/-- A macro with the name of a constant. -/
def constantMacros : MacroTable :=
  ⟨[⟨"true", [], "true"⟩]⟩

/-- A macro with the name of the function whose arguments are operands, and one that calls
itself. -/
def shadowMacros : MacroTable :=
  ⟨[⟨"at_least", ["count", "operand"], "X"⟩, ⟨"loop", [], "loop"⟩]⟩

/-- A macro with the name of a constant is not called, and an argument of a macro that is not
used is not read. -/
theorem parse_constant_macro :
    constantMacros.Circular {"true"} ∧ constantMacros.Exposed {"true"} "true" ∧
    (parse .oot constantMacros .empty "true").1 = .ok (.const true) ∧
    shadowMacros.Circular {"loop"} ∧
    (parse .oot shadowMacros .empty "at_least(2, loop)").1 = .ok (.hasItem 0 1) := by
  have hbody : constantMacros.Exposed {"true"} "true" := by
    refine MacroTable.exposed_of_scan rfl ?_
    exact ⟨[], _, [], "true", rfl, rfl, rfl, nofun, rfl⟩
  refine ⟨?_, hbody, rfl, ?_, rfl⟩
  · rintro name rfl
    exact ⟨_, rfl, rfl, hbody⟩
  · rintro name rfl
    refine ⟨_, rfl, rfl, MacroTable.exposed_of_scan rfl ?_⟩
    exact ⟨[], _, [], "loop", rfl, rfl, rfl, nofun, rfl⟩

end Requirement

end SeedLogic
