import SeedLogic.Formula
import SeedLogic.Proofs.Requirement.Builders

/-!
# Truth of formulas

A formula is true or false by what its names stand for.  Compiling it with symbols
that number its names keeps that: the requirement evaluates to the truth of the
formula (`eval_compile`).
-/

namespace SeedLogic

/-- What names stand for: counts of items, events obtained, and settings that are on. -/
structure View where
  count : String → Nat
  event : String → Bool
  setting : SettingKey → Bool

/-- What the names of symbols stand for in a situation.  Other names stand for nothing. -/
def Symbols.view (symbols : Symbols) (situation : Situation) : View where
  count name := ((symbols.items.get? name).map situation.inventory.count).getD 0
  event name := ((symbols.events.get? name).map situation.events.has).getD false
  setting key := ((symbols.settings.get? key).map situation.settings.has).getD false

/-- In a situation, the names of symbols stand for what a view says. -/
structure Symbols.Shows (symbols : Symbols) (situation : Situation) (view : View) : Prop where
  count : ∀ name ∈ symbols.items.keys,
    situation.inventory.count (symbols.items.idOf name) = view.count name
  event : ∀ name ∈ symbols.events.keys,
    situation.events.has (symbols.events.idOf name) = view.event name
  setting : ∀ key ∈ symbols.settings.keys,
    situation.settings.has (symbols.settings.idOf key) = view.setting key

theorem Symbols.shows_view (symbols : Symbols) (situation : Situation) :
    symbols.Shows situation (symbols.view situation) := by
  constructor
  · intro name hmem
    simp [view, NameTable.get?, hmem]
  · intro name hmem
    simp [view, NameTable.get?, hmem]
  · intro key hmem
    simp [view, NameTable.get?, hmem]

namespace Formula

mutual

/-- Is the formula true? -/
def truth (view : View) : Formula → Bool
  | .const value => value
  | .item name count => count ≤ view.count name
  | .event name => view.event name
  | .setting key => view.setting key
  | .not operand => !truth view operand
  | .all operands => truthOfAll view operands
  | .any operands => truthOfAny view operands
  | .atLeast count operands => count ≤ countTrue view operands

/-- Are all formulas true? -/
def truthOfAll (view : View) : List Formula → Bool
  | [] => true
  | operand :: operands => truth view operand && truthOfAll view operands

/-- Is some formula true? -/
def truthOfAny (view : View) : List Formula → Bool
  | [] => false
  | operand :: operands => truth view operand || truthOfAny view operands

/-- How many formulas are true? -/
def countTrue (view : View) : List Formula → Nat
  | [] => 0
  | operand :: operands => (truth view operand).toNat + countTrue view operands

end

/-- Symbols number every name of a formula. -/
def Known (symbols : Symbols) (formula : Formula) : Prop :=
  ∀ entry ∈ formula.mentions, symbols.Knows entry

/-! ## Compiling -/

variable {symbols : Symbols} {situation : Situation} {view : View}

mutual

/-- A formula compiles to a requirement that holds when the formula is true, by what its
names stand for. -/
theorem eval_compile_of_shows (hshows : symbols.Shows situation view) :
    ∀ formula : Formula, formula.Known symbols →
      (formula.compile symbols).eval situation = formula.truth view
  | .const value, _ => by simp [compile, truth]
  | .item name count, hknown => by
      have hmem : name ∈ symbols.items.keys := hknown (.item name) (by simp [mentions])
      rw [compile, truth, Requirement.eval, hshows.count name hmem]
  | .event name, hknown => by
      have hmem : name ∈ symbols.events.keys := hknown (.event name) (by simp [mentions])
      rw [compile, truth, Requirement.eval, hshows.event name hmem]
  | .setting key, hknown => by
      have hmem : key ∈ symbols.settings.keys := hknown (.setting key) (by simp [mentions])
      rw [compile, truth, Requirement.eval, hshows.setting key hmem]
  | .not operand, hknown => by
      rw [compile, truth, Requirement.eval_makeNot, eval_compile_of_shows hshows operand hknown]
  | .all operands, hknown => by
      rw [compile, truth, Requirement.eval_makeAnd, all_compileAll hshows operands hknown]
  | .any operands, hknown => by
      rw [compile, truth, Requirement.eval_makeOr, any_compileAll hshows operands hknown]
  | .atLeast count operands, hknown => by
      rw [compile, truth, Requirement.eval_makeAtLeast, countP_compileAll hshows operands hknown]

theorem all_compileAll (hshows : symbols.Shows situation view) :
    ∀ operands : List Formula, (∀ entry ∈ mentionsOfAll operands, symbols.Knows entry) →
      (compileAll symbols operands).all (Requirement.eval situation) = truthOfAll view operands
  | [], _ => by simp [compileAll, truthOfAll]
  | operand :: operands, hknown => by
      rw [mentionsOfAll, List.forall_mem_append] at hknown
      rw [compileAll, truthOfAll, List.all_cons, eval_compile_of_shows hshows operand hknown.1,
        all_compileAll hshows operands hknown.2]

theorem any_compileAll (hshows : symbols.Shows situation view) :
    ∀ operands : List Formula, (∀ entry ∈ mentionsOfAll operands, symbols.Knows entry) →
      (compileAll symbols operands).any (Requirement.eval situation) = truthOfAny view operands
  | [], _ => by simp [compileAll, truthOfAny]
  | operand :: operands, hknown => by
      rw [mentionsOfAll, List.forall_mem_append] at hknown
      rw [compileAll, truthOfAny, List.any_cons, eval_compile_of_shows hshows operand hknown.1,
        any_compileAll hshows operands hknown.2]

theorem countP_compileAll (hshows : symbols.Shows situation view) :
    ∀ operands : List Formula, (∀ entry ∈ mentionsOfAll operands, symbols.Knows entry) →
      (compileAll symbols operands).countP (Requirement.eval situation) = countTrue view operands
  | [], _ => by simp [compileAll, countTrue]
  | operand :: operands, hknown => by
      rw [mentionsOfAll, List.forall_mem_append] at hknown
      rw [compileAll, countTrue, List.countP_cons, countP_compileAll hshows operands hknown.2,
        eval_compile_of_shows hshows operand hknown.1, Nat.add_comm]
      cases operand.truth view <;> rfl

end

/-- A formula compiles to a requirement that holds when the formula is true. -/
theorem eval_compile (situation : Situation) (formula : Formula) (hknown : formula.Known symbols) :
    (formula.compile symbols).eval situation = formula.truth (symbols.view situation) :=
  eval_compile_of_shows (symbols.shows_view situation) formula hknown

end Formula

end SeedLogic
