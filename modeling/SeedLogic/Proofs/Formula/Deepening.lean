import SeedLogic.Proofs.Formula.Blame
import SeedLogic.Proofs.Formula.Comparing

/-!
# Reading at a depth

An expansion is read one level deeper than its call, and an expanded text could be read at any
depth (`Requirement.parseAt`).  The depth is only a bound: where a text is not refused for it,
the outcome is the same at every smaller depth (`Requirement.parseAt_eq_of_le`).
-/

namespace SeedLogic

/-- Read a requirement text that is `nesting` levels deep in macro calls. -/
def Requirement.parseAt (game : Game) (macros : MacroTable) (symbols : Symbols) (nesting : Nat)
    (text : String) : Except LogicError Requirement × Symbols :=
  let outcome := (Formula.read game macros (maxMacroDepth - nesting) text).mapFault
    (ParseError.inText text)
  let symbols := symbols.mentionAll outcome.trace
  (outcome.result.map (Formula.compile symbols), symbols)

theorem Requirement.parseAt_zero (game : Game) (macros : MacroTable) (symbols : Symbols)
    (text : String) : parseAt game macros symbols 0 text = parse game macros symbols text := by
  rw [parse, Formula.parse_eq_read]
  rfl

/-- Macro calls are found to nest too deep. -/
def Parse.TooDeep {α : Type} (outcome : Parse α) : Prop :=
  ∃ name, outcome.result = .error (.recursiveMacro name)

/-- An outcome is compared with what it is where macro calls may nest deeper. -/
def deepening : Comparison Unit where
  Rel family outcome := (family ()).TooDeep ∨ family () = outcome
  const _ := .inr rfl
  bind := by
    intro α β family outcome next next' hfirst hnext
    rcases hfirst with ⟨name, hdeep⟩ | rfl
    · refine .inl ⟨name, ?_⟩
      rw [Recorded.result_bind, hdeep]
      rfl
    · cases hresult : (family ()).result with
      | error error => exact .inr (Recorded.bind_congr_of_error hresult _ _)
      | ok value =>
          rcases hnext value hresult with ⟨name, hdeep⟩ | hsame
          · refine .inl ⟨name, ?_⟩
            rw [Recorded.result_bind, hresult]
            exact hdeep
          · exact .inr (Recorded.bind_congr_of_ok hresult hsame)
  atCall := by
    rintro family outcome span name (⟨deepest, hdeep⟩ | rfl)
    · refine .inl ⟨deepest, ?_⟩
      rw [Recorded.result_mapFault, hdeep]
      rfl
    · exact .inr rfl

variable {game : Game} {macros : MacroTable}

/-- Where calls may nest deeper a macro call that does not nest too deep stands for the same. -/
theorem expansion_deepening {depth deeper : Nat} (hdepth : depth ≤ deeper) (entry : Macro)
    (head : Token) (arguments : List (List Token)) :
    deepening.Rel (fun _ => expansion game macros depth entry head arguments)
      (expansion game macros deeper entry head arguments) := by
  induction depth generalizing deeper entry head arguments with
  | zero => exact .inl ⟨entry.name, rfl⟩
  | succ depth ih =>
      cases deeper with
      | zero => exact absurd hdepth (Nat.not_succ_le_zero depth)
      | succ deeper =>
          have hinside := ih (Nat.le_of_succ_le_succ hdepth)
          exact Comparison.inline (Comparison.formula hinside 0) entry head arguments

theorem Formula.tooDeep_or_eq_read {depth deeper : Nat} (hdepth : depth ≤ deeper)
    (text : String) :
    (read game macros depth text).TooDeep ∨
      read game macros depth text = read game macros deeper text := by
  simp only [read]
  cases scan text with
  | ok tokens => exact Comparison.formula (expansion_deepening hdepth) _ tokens
  | error fault => exact .inr rfl

/-- A text that is not refused for the depth of its macro calls is read in the same way at every
smaller depth. -/
theorem Requirement.parseAt_eq_of_le {symbols : Symbols} {shallow deep : Nat} {text : String}
    (hdepth : shallow ≤ deep)
    (hallowed : ∀ name limit,
      (parseAt game macros symbols deep text).1 ≠ .error (.recursiveMacro name limit)) :
    parseAt game macros symbols shallow text = parseAt game macros symbols deep text := by
  have hless : maxMacroDepth - deep ≤ maxMacroDepth - shallow := Nat.sub_le_sub_left hdepth _
  rcases Formula.tooDeep_or_eq_read hless text with ⟨name, hdeep⟩ | hsame
  · apply absurd _ (hallowed name maxMacroDepth)
    simp only [parseAt, Recorded.result_mapFault]
    rw [hdeep]
    rfl
  · simp only [parseAt]
    rw [hsame]

end SeedLogic
