import SeedLogic.Formula.Expansion
import SeedLogic.Proofs.Formula.Completeness
import SeedLogic.Proofs.Formula.Truth

/-!
# What texts spell

A text spells a formula when its tokens are derived as one.  Reading a text succeeds when
it spells a formula, and the requirement that is read evaluates to the truth of that
formula (`Requirement.parse_follows_grammar`).
-/

namespace SeedLogic

/-- The grammar of a game without macros. -/
def Grammar.plain (game : Game) : Grammar :=
  ⟨game, .empty, fun _ _ _ => False⟩

/-- The tokens of a text, before its end mark, are a formula. -/
def Grammar.Spells (grammar : Grammar) (text : String) (formula : Formula) : Prop :=
  ∃ tokens, tokenize text = .ok (tokens ++ [Token.endOf text]) ∧
    grammar.Derives .disjunction (tokens.map Token.face) [formula]

/-- Texts are tokenized when they are scanned, and only get an end mark. -/
theorem tokenize_eq_ok_iff {text : String} {tokens : List Token} :
    tokenize text = .ok (tokens ++ [Token.endOf text]) ↔ scan text = .ok tokens := by
  unfold tokenize
  cases scan text <;> simp

/-- Without macros, all dialects are the same. -/
theorem Grammar.describes_plain (game : Game)
    (expand : Macro → Token → List (List Token) → Parse Formula) :
    (plain game).Describes ⟨game, .empty, expand⟩ :=
  ⟨rfl, rfl, fun hfind => by cases hfind⟩

theorem Recorded.mapFault_eq_ok_iff {τ ε ε' α : Type} {change : ε → ε'}
    {outcome : Recorded τ ε α} {trace : List τ} {value : α} :
    outcome.mapFault change = ⟨trace, .ok value⟩ ↔ outcome = ⟨trace, .ok value⟩ := by
  rcases outcome with ⟨entries, result⟩
  cases result <;> simp [Recorded.mapFault, Except.mapError]

section Describes

variable {grammar : Grammar} {game : Game} {macros : MacroTable} {text : String}
  (hdescribes : grammar.Describes (.ofMacros game macros maxMacroDepth))
include hdescribes

/-- A text is read as a formula when it spells one. -/
theorem Formula.parse_eq_ok_iff {trace : List Mention} {formula : Formula} :
    Formula.parse game macros text = ⟨trace, .ok formula⟩ ↔
      trace = formula.mentions ∧ grammar.Spells text formula := by
  unfold Formula.parse Grammar.Spells
  cases hscan : scan text with
  | ok tokens =>
      simp only [tokenize_eq_ok_iff, hscan]
      rw [Recorded.mapFault_eq_ok_iff, Reader.formula_eq_ok_iff hdescribes]
      constructor
      · rintro ⟨rfl, hderives⟩
        exact ⟨rfl, tokens, rfl, hderives⟩
      · rintro ⟨rfl, others, hothers, hderives⟩
        cases hothers
        exact ⟨rfl, hderives⟩
  | error fault =>
      simp only [tokenize_eq_ok_iff, hscan]
      constructor
      · intro hfail
        cases congrArg Recorded.result hfail
      · rintro ⟨-, tokens, htokens, -⟩
        cases htokens

/-- Reading a text numbers the names of the formula that it spells. -/
theorem Requirement.parse_eq_ok_iff {symbols later : Symbols} {requirement : Requirement} :
    Requirement.parse game macros symbols text = (.ok requirement, later) ↔
      ∃ formula, grammar.Spells text formula ∧ later = symbols.mentionAll formula.mentions ∧
        requirement = formula.compile later := by
  unfold Requirement.parse
  constructor
  · intro hparse
    rcases Prod.mk.inj hparse with ⟨hresult, hlater⟩
    cases houtcome : (Formula.parse game macros text).result with
    | error fault =>
        rw [houtcome] at hresult
        cases hresult
    | ok formula =>
        rw [houtcome] at hresult
        have hformula : Formula.parse game macros text = ⟨_, .ok formula⟩ :=
          Recorded.ext rfl houtcome
        obtain ⟨htrace : (Formula.parse game macros text).trace = _, hspells⟩ :=
          (Formula.parse_eq_ok_iff hdescribes).mp hformula
        rw [htrace] at hlater hresult
        rw [hlater] at hresult
        cases hresult
        exact ⟨formula, hspells, hlater.symm, rfl⟩
  · rintro ⟨formula, hspells, rfl, rfl⟩
    have hformula := (Formula.parse_eq_ok_iff hdescribes).mpr ⟨rfl, hspells⟩
    rw [hformula]
    rfl

/-- A text spells one formula at most. -/
theorem Grammar.Spells.unique {formula other : Formula} (hformula : grammar.Spells text formula)
    (hother : grammar.Spells text other) : formula = other := by
  have hread := (Formula.parse_eq_ok_iff hdescribes).mpr ⟨rfl, hformula⟩
  rw [(Formula.parse_eq_ok_iff hdescribes).mpr ⟨rfl, hother⟩] at hread
  cases congrArg Recorded.result hread
  rfl

/-- What is read is a requirement that holds when the formula of the text is true. -/
theorem Requirement.eval_of_spells {symbols later : Symbols} {requirement : Requirement}
    (hparse : Requirement.parse game macros symbols text = (.ok requirement, later))
    {formula : Formula} (hspells : grammar.Spells text formula) :
    formula.Known later ∧
      ∀ situation, requirement.eval situation = formula.truth (later.view situation) := by
  rcases (Requirement.parse_eq_ok_iff hdescribes).mp hparse with ⟨other, hother, rfl, rfl⟩
  obtain rfl := hspells.unique hdescribes hother
  have hknown : formula.Known (symbols.mentionAll formula.mentions) :=
    fun entry hentry => symbols.knows_mentionAll hentry
  exact ⟨hknown, fun situation => Formula.eval_compile situation formula hknown⟩

end Describes

/-! ## Texts without macros -/

/-- Without macros, exactly the texts of the grammar are read, as requirements that know
all names and hold when the formula of the text is true. -/
theorem Requirement.parse_follows_grammar (game : Game) (symbols : Symbols) (text : String) :
    ((∃ requirement later,
        Requirement.parse game .empty symbols text = (.ok requirement, later)) ↔
      ∃ formula, (Grammar.plain game).Spells text formula) ∧
    ∀ requirement later formula,
      Requirement.parse game .empty symbols text = (.ok requirement, later) →
      (Grammar.plain game).Spells text formula →
      formula.Known later ∧
        ∀ situation, requirement.eval situation = formula.truth (later.view situation) := by
  have hdescribes : (Grammar.plain game).Describes (.ofMacros game .empty maxMacroDepth) :=
    Grammar.describes_plain game _
  refine ⟨⟨?_, ?_⟩, ?_⟩
  · rintro ⟨requirement, later, hparse⟩
    rcases (Requirement.parse_eq_ok_iff hdescribes).mp hparse with ⟨formula, hspells, -⟩
    exact ⟨formula, hspells⟩
  · rintro ⟨formula, hspells⟩
    exact ⟨_, _, (Requirement.parse_eq_ok_iff hdescribes).mpr ⟨formula, hspells, rfl, rfl⟩⟩
  · intro requirement later formula hparse hspells
    exact Requirement.eval_of_spells hdescribes hparse hspells

/-- Two bombs and no flood. -/
theorem Requirement.parse_follows_grammar_bombs :
    ∃ requirement later formula,
      Requirement.parse .oot .empty .empty "has(BOMB, 2) & !event(FLOOD)" =
        (.ok requirement, later) ∧
      (Grammar.plain .oot).Spells "has(BOMB, 2) & !event(FLOOD)" formula ∧
      requirement = .and [.hasItem 0 2, .not (.hasEvent 0)] ∧
      ∀ situation, requirement.eval situation = formula.truth (later.view situation) := by
  have hfollows := parse_follows_grammar .oot .empty "has(BOMB, 2) & !event(FLOOD)"
  have hparse : Requirement.parse .oot .empty .empty "has(BOMB, 2) & !event(FLOOD)" =
      (.ok (.and [.hasItem 0 2, .not (.hasEvent 0)]), _) := rfl
  rcases hfollows.1.mp ⟨_, _, hparse⟩ with ⟨formula, hspells⟩
  exact ⟨_, _, formula, hparse, hspells, rfl, (hfollows.2 _ _ _ hparse hspells).2⟩

end SeedLogic
