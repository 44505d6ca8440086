import SeedLogic.Proofs.Formula.Comparing

/-!
# Reading ends

Requirement texts can also be read with nothing but a limit of turns: it bounds how many terms
a series has, and how deeply formulas are read inside of formulas and of macro bodies.  Where no
turn is left the reading ends in a `crash`, whatever that may be.  With turns enough there is
no crash, and the reading is the one that counts tokens (`Limited.exists_enough`).  What is
asked of macros is nothing at all, so that this holds of macros that call each other in a
circle, too.
-/

namespace SeedLogic

/-! ## The reading -/

namespace Limited

variable (crash : ParseError)

/-- Terms separated by one kind of token, in at most `turns` turns. -/
def chain (separator : TokenKind) (term : Reader Formula) :
    (turns : Nat) → Reader (List Formula)
  | 0, _ => .fail crash
  | turns + 1, tokens => do
      let (first, rest) ← term tokens
      match rest with
      | [] => pure ([first], [])
      | token :: behind =>
          if token.kind = separator then do
            let (others, rest) ← chain separator term turns behind
            pure (first :: others, rest)
          else pure ([first], token :: behind)

/-- A series of terms, joined. -/
def series (separator : TokenKind) (join : List Formula → Formula) (term : Reader Formula)
    (turns : Nat) : Reader Formula :=
  fun tokens => do
    let (terms, rest) ← chain crash separator term turns tokens
    pure (Reader.joined join terms, rest)

/-- The formula of a macro call.  `reader depth stop` reads a formula in which calls may nest
`depth` levels deep. -/
def expansion (reader : Nat → Nat → Reader Formula) :
    (depth : Nat) → Macro → Token → List (List Token) → Parse Formula
  | 0, entry, _, _ => .fail (.recursiveMacro entry.name)
  | depth + 1, entry, head, arguments =>
      entry.inline (Reader.whole (reader depth 0)) head arguments

/-- A disjunction, in which calls may nest `depth` levels deep. -/
def disjunction (game : Game) (macros : MacroTable) :
    (turns : Nat) → (depth : Nat) → (stop : Nat) → Reader Formula
  | 0, _, _ => fun _ => .fail crash
  | turns + 1, depth, stop =>
      series crash .or .any
        (series crash .and .all
          (Reader.negated
            (Reader.operand
              ⟨game, macros, expansion (disjunction game macros turns) depth⟩
              (disjunction game macros turns depth) stop))
          turns)
        turns

/-- Read a requirement text as a formula, in at most `turns` turns. -/
def formula (game : Game) (macros : MacroTable) (turns : Nat) (text : String) :
    Recorded Mention LogicError Formula :=
  match scan text with
  | .ok tokens =>
      (Reader.whole (disjunction crash game macros turns maxMacroDepth text.utf8ByteSize)
        tokens).mapFault (ParseError.inText text)
  | .error fault => .fail (.badSyntax (fault.inText text))

/-- Read a requirement text, in at most `turns` turns. -/
def parse (game : Game) (macros : MacroTable) (symbols : Symbols) (turns : Nat) (text : String) :
    Except LogicError Requirement × Symbols :=
  let outcome := formula crash game macros turns text
  let symbols := symbols.mentionAll outcome.trace
  (outcome.result.map (Formula.compile symbols), symbols)

end Limited

/-! ## Families that settle -/

/-- From some stage on, all of a family of outcomes are the same outcome. -/
def Settles {ι α : Type} (stage : ι → Nat) (family : ι → Parse α) (outcome : Parse α) : Prop :=
  ∃ enough, ∀ index, enough ≤ stage index → family index = outcome

namespace Settles

variable {ι κ α : Type} {stage : ι → Nat} {outcome : Parse α}

theorem bind {β : Type} {family : ι → Parse α} {next : ι → α → Parse β} {next' : α → Parse β}
    (hfirst : Settles stage family outcome)
    (hnext : ∀ value, outcome.result = .ok value →
      Settles stage (fun index => next index value) (next' value)) :
    Settles stage (fun index => family index >>= next index) (outcome >>= next') := by
  rcases hfirst with ⟨enough, hfirst⟩
  cases hresult : outcome.result with
  | error error =>
      refine ⟨enough, fun index henough => ?_⟩
      dsimp only
      rw [hfirst index henough]
      exact Recorded.bind_congr_of_error hresult _ _
  | ok value =>
      rcases hnext value hresult with ⟨more, hmore⟩
      refine ⟨max enough more, fun index hstage => ?_⟩
      dsimp only
      rw [hfirst index (Nat.le_trans (Nat.le_max_left enough more) hstage)]
      exact Recorded.bind_congr_of_ok hresult
        (hmore index (Nat.le_trans (Nat.le_max_right enough more) hstage))

/-- A family settles along indices that are no further than their images. -/
theorem comap {stage' : κ → Nat} {family : κ → Parse α} (hsettles : Settles stage' family outcome)
    (change : ι → κ) (hstage : ∀ index, stage index ≤ stage' (change index)) :
    Settles stage (fun index => family (change index)) outcome := by
  rcases hsettles with ⟨enough, hfamily⟩
  exact ⟨enough, fun index henough =>
    hfamily (change index) (Nat.le_trans henough (hstage index))⟩

/-- A family settles where it settles one stage later. -/
theorem later {family : ι → Parse α} (change : ι → ι)
    (hchange : ∀ index, stage index ≠ 0 →
      ∃ earlier, change earlier = index ∧ stage index ≤ stage earlier + 1)
    (hsettles : Settles stage (fun index => family (change index)) outcome) :
    Settles stage family outcome := by
  rcases hsettles with ⟨enough, hfamily⟩
  refine ⟨enough + 1, fun index henough => ?_⟩
  rcases hchange index (Nat.ne_of_gt (Nat.lt_of_lt_of_le (Nat.succ_pos enough) henough)) with
    ⟨earlier, rfl, hstage⟩
  exact hfamily earlier (Nat.le_of_succ_le_succ (Nat.le_trans henough hstage))

end Settles

/-- Families are compared with what they settle to. -/
def settling {ι : Type} (stage : ι → Nat) : Comparison ι where
  Rel := Settles stage
  const _ := ⟨0, fun _ _ => rfl⟩
  bind := Settles.bind
  atCall span name := by
    rintro ⟨enough, hfamily⟩
    exact ⟨enough, fun index henough =>
      congrArg (Recorded.mapFault (ParseError.atCall span name)) (hfamily index henough)⟩

/-! ## Turns enough -/

/-- A number of turns, and what the reading ends in when they are used up. -/
abbrev Turns :=
  Nat × ParseError

/-- What a reader hands back is shorter than what it was given. -/
def Reader.Shrinks (reader : Reader Formula) : Prop :=
  ∀ tokens formula rest, (reader tokens).result = .ok (formula, rest) →
    rest.length < tokens.length

/-- A reader that takes what is derived takes something. -/
theorem Reader.shrinks_of_follows {grammar : Grammar} {category : Category}
    {reader : Reader Formula}
    (hfollows : reader.Follows fun faces formula => grammar.Derives category faces [formula]) :
    reader.Shrinks := by
  intro tokens formula rest hread
  rcases hfollows tokens _ formula rest (Recorded.ext rfl hread) with ⟨-, used, rfl, hderives⟩
  have hne : used ≠ [] := fun hnil => hderives.ne_nil (by rw [hnil]; rfl)
  have hpositive := List.length_pos_of_ne_nil hne
  rw [List.length_append]
  omega

namespace Limited

section Series

variable (separator : TokenKind) {term : Turns → Reader Formula} {term' : Reader Formula}
  {limit : Nat} (join : List Formula → Formula) (stop : Nat)
  (hterm : (settling Prod.fst).Readers limit term term') (hshrinks : term'.Shrinks)
include hterm hshrinks

/-- A series has as many turns as it has tokens, each with turns enough for its term. -/
theorem settles_chain {fuel : Nat} {tokens : List Token} (hfuel : tokens.length < fuel)
    (hlimit : tokens.length < limit) :
    Settles (fun index : Nat × Turns => min index.1 index.2.1)
      (fun index => chain index.2.2 separator (term index.2) index.1 tokens)
      (Reader.chain separator stop term' fuel tokens) := by
  induction fuel generalizing tokens with
  | zero => exact absurd hfuel (Nat.not_lt_zero _)
  | succ fuel ih =>
      -- One term uses up a turn of the series, but none of those that the term itself has.
      apply Settles.later fun index => (index.1 + 1, index.2)
      · rintro ⟨_ | turns, inside⟩ hstage
        · exact absurd (Nat.zero_min _) hstage
        · exact ⟨(turns, inside), rfl, by dsimp only; omega⟩
      simp only [chain, Reader.chain]
      apply Settles.bind
      · exact (hterm tokens hlimit).comap Prod.snd fun index => Nat.min_le_right _ _
      rintro ⟨first, rest⟩ hfirst
      have hrest := hshrinks tokens first rest hfirst
      cases rest with
      | nil => exact (settling _).const _
      | cons mark behind =>
          dsimp only
          by_cases hmark : mark.kind = separator
          · simp only [if_pos hmark]
            rw [List.length_cons] at hrest
            have hothers := ih (show behind.length < fuel by omega) (by omega)
            exact hothers.bind fun _ _ => (settling _).const _
          · simp only [if_neg hmark]
            exact (settling _).const _

theorem settles_series :
    (settling Prod.fst).Readers limit
      (fun turns => series turns.2 separator join (term turns) turns.1)
      (Reader.series separator join stop term') := by
  intro tokens hlimit
  have hchain := settles_chain separator stop hterm hshrinks (Nat.lt_succ_self tokens.length)
    hlimit
  -- The series and its terms have the same number of turns.
  have hdiagonal : Settles Prod.fst
      (fun turns : Turns => chain turns.2 separator (term turns) turns.1 tokens) _ :=
    hchain.comap (fun turns => (turns.1, turns))
      fun _ => Nat.le_min.mpr ⟨Nat.le_refl _, Nat.le_refl _⟩
  exact hdiagonal.bind fun _ _ => (settling _).const _

end Series

variable {game : Game} {macros : MacroTable}

/-- Disjunctions are read with turns enough when macros are expanded with turns enough. -/
theorem settles_disjunction_of_expansion {depth : Nat}
    (hexpand : ∀ entry head arguments, Settles Prod.fst
      (fun turns : Turns =>
        expansion (disjunction turns.2 game macros turns.1) depth entry head arguments)
      (SeedLogic.expansion game macros depth entry head arguments)) (limit stop : Nat) :
    (settling Prod.fst).Readers limit
      (fun turns : Turns => disjunction turns.2 game macros turns.1 depth stop)
      (Reader.disjunction (.ofMacros game macros depth) limit stop) := by
  have hdescribes := Grammar.describes_ofMacros game macros depth
  induction limit generalizing stop with
  | zero => exact fun tokens hnone => absurd hnone (Nat.not_lt_zero _)
  | succ limit ih =>
      have hoperand : (settling Prod.fst).Readers (limit + 1)
          (fun turns : Turns => Reader.operand
            ⟨game, macros, expansion (disjunction turns.2 game macros turns.1) depth⟩
            (disjunction turns.2 game macros turns.1 depth) stop) _ :=
        Comparison.operand ih hexpand stop
      have hinside := Reader.disjunction_sound hdescribes limit
      have hunary := Reader.negated_sound (Reader.operand_sound hinside hdescribes stop)
      have hconjunction := Reader.conjunction_sound hdescribes hinside stop
      have hterms : (settling Prod.fst).Readers (limit + 1) _ _ :=
        settles_series .and .all stop (Comparison.negated hoperand)
          (Reader.shrinks_of_follows hunary)
      have hseries : (settling Prod.fst).Readers (limit + 1) _ _ :=
        settles_series .or .any stop hterms (Reader.shrinks_of_follows hconjunction)
      intro tokens hlimit
      apply Settles.later fun turns => (turns.1 + 1, turns.2)
      · rintro ⟨_ | turns, crash⟩ hstage
        · exact absurd rfl hstage
        · exact ⟨(turns, crash), rfl, Nat.le_refl _⟩
      exact hseries tokens hlimit

theorem settles_expansion (depth : Nat) (entry : Macro) (head : Token)
    (arguments : List (List Token)) :
    Settles Prod.fst
      (fun turns : Turns =>
        expansion (disjunction turns.2 game macros turns.1) depth entry head arguments)
      (SeedLogic.expansion game macros depth entry head arguments) := by
  induction depth generalizing entry head arguments with
  | zero => exact (settling Prod.fst).const _
  | succ depth ih =>
      have hdeeper : ∀ tokens, (settling Prod.fst).Rel
          (fun turns : Turns =>
            Reader.whole (disjunction turns.2 game macros turns.1 depth 0) tokens)
          (Reader.formula (.ofMacros game macros depth) 0 tokens) := fun tokens =>
        Comparison.whole (settles_disjunction_of_expansion ih _ 0) (Nat.lt_succ_self _)
      exact Comparison.inline hdeeper entry head arguments

/-- With turns enough every text is read as it is without a limit on turns, and nothing
crashes. -/
theorem exists_enough (game : Game) (macros : MacroTable) (text : String) :
    ∃ enough, ∀ turns, enough ≤ turns → ∀ crash symbols,
      parse crash game macros symbols turns text = Requirement.parse game macros symbols text := by
  have hformula : ∃ enough, ∀ turns, enough ≤ turns → ∀ crash,
      formula crash game macros turns text = Formula.parse game macros text := by
    simp only [formula, Formula.parse]
    cases scan text with
    | error fault => exact ⟨0, fun _ _ _ => rfl⟩
    | ok tokens =>
        have hexpand := @settles_expansion game macros maxMacroDepth
        have hreader := settles_disjunction_of_expansion hexpand (tokens.length + 1)
          text.utf8ByteSize
        rcases Comparison.whole hreader (Nat.lt_succ_self _) with ⟨enough, henough⟩
        exact ⟨enough, fun turns hturns crash =>
          congrArg (Recorded.mapFault (ParseError.inText text)) (henough (turns, crash) hturns)⟩
  rcases hformula with ⟨enough, henough⟩
  refine ⟨enough, fun turns hturns crash symbols => ?_⟩
  rw [parse, Requirement.parse, henough turns hturns crash]

end Limited

end SeedLogic
