import SeedLogic.Proofs.Formula.Describing
import SeedLogic.Proofs.Symbols.Register
import SeedLogic.Proofs.World.Reading

/-!
# Parsers that share symbols

Parsers of either game, each with macros of its own, take turns and number the names that
they meet in the same symbols.  Whatever they are called for, and whether it succeeds, the
symbols only grow (`Session.run_extends`).  So a requirement that was read once stays what
it is, and reading its text again by the same macros gives the same requirement and no new
names (`Session.run_stable`).
-/

namespace SeedLogic

/-! ## More symbols -/

namespace Symbols.Extends

variable {later earlier : Symbols} {id : Nat}

theorem itemName_eq (hextends : later.Extends earlier) (hid : id < earlier.items.size) :
    later.itemName id = earlier.itemName id := by
  rcases hextends.items with ⟨added, hadded⟩
  rw [itemName, itemName, ← hadded, List.getElem?_append_left hid]

theorem eventName_eq (hextends : later.Extends earlier) (hid : id < earlier.events.size) :
    later.eventName id = earlier.eventName id := by
  rcases hextends.events with ⟨added, hadded⟩
  rw [eventName, eventName, ← hadded, List.getElem?_append_left hid]

theorem settingText_eq (hextends : later.Extends earlier) (hid : id < earlier.settings.size) :
    later.settingText id = earlier.settingText id := by
  rcases hextends.settings with ⟨added, hadded⟩
  rw [settingText, settingText, ← hadded, List.getElem?_append_left hid]

end Symbols.Extends

namespace Requirement

variable {later earlier : Symbols}

mutual

/-- More names do not change the text of a requirement over the names before. -/
theorem describe_eq_of_extends (hextends : later.Extends earlier) :
    ∀ requirement : Requirement, requirement.InRange earlier →
      requirement.describe later = requirement.describe earlier
  | .const value, _ => by rw [describe, describe]
  | .hasItem item count, hrange => by
      have hitem : item < earlier.items.size := hrange (.item item count) (by simp [atoms])
      rw [describe, describe, hextends.itemName_eq hitem]
  | .hasEvent event, hrange => by
      have hevent : event < earlier.events.size := hrange (.event event) (by simp [atoms])
      rw [describe, describe, hextends.eventName_eq hevent]
  | .setting id, hrange => by
      have hsetting : id < earlier.settings.size := hrange (.setting id) (by simp [atoms])
      rw [describe, describe, hextends.settingText_eq hsetting]
  | .not operand, hrange => by
      have hoperand : operand.InRange earlier := fun atom hatom =>
        hrange atom (by rwa [atoms])
      rw [describe, describe, describe_eq_of_extends hextends operand hoperand]
  | .and operands, hrange => by
      have hoperands : ∀ atom ∈ atomsOfAll operands, atom.InRange earlier := fun atom hatom =>
        hrange atom (by rwa [atoms])
      rw [describe, describe, describeAll_eq_of_extends hextends " & " operands hoperands]
  | .or operands, hrange => by
      have hoperands : ∀ atom ∈ atomsOfAll operands, atom.InRange earlier := fun atom hatom =>
        hrange atom (by rwa [atoms])
      rw [describe, describe, describeAll_eq_of_extends hextends " | " operands hoperands]
  | .atLeast count operands, hrange => by
      have hoperands : ∀ atom ∈ atomsOfAll operands, atom.InRange earlier := fun atom hatom =>
        hrange atom (by rw [atoms]; exact List.mem_cons_of_mem _ hatom)
      rw [describe, describe, describeAll_eq_of_extends hextends ", " operands hoperands]

theorem describeAll_eq_of_extends (hextends : later.Extends earlier) (separator : String) :
    ∀ operands : List Requirement, (∀ atom ∈ atomsOfAll operands, atom.InRange earlier) →
      describeAll later separator operands = describeAll earlier separator operands
  | [], _ => by rw [describeAll, describeAll]
  | [operand], hrange => by
      have hoperand : operand.InRange earlier := fun atom hatom =>
        hrange atom (by rw [atomsOfAll]; exact List.mem_append_left _ hatom)
      rw [describeAll, describeAll, describe_eq_of_extends hextends operand hoperand]
  | operand :: next :: operands, hrange => by
      rw [atomsOfAll, List.forall_mem_append] at hrange
      rw [describeAll, describeAll, describe_eq_of_extends hextends operand hrange.1,
        describeAll_eq_of_extends hextends separator (next :: operands) hrange.2]

end

end Requirement

/-! ## Equal macros -/

section Macros

variable {macros macros' : MacroTable} (hmacros : ∀ name, macros.find? name = macros'.find? name)
  (game : Game)
include hmacros

/-- An operand is read by the macros that are found, however they are listed. -/
theorem Reader.operand_congr (expand : Macro → Token → List (List Token) → Parse Formula)
    (inner : Nat → Reader Formula) (stop : Nat) :
    operand ⟨game, macros, expand⟩ inner stop = operand ⟨game, macros', expand⟩ inner stop := by
  have hword : word ⟨game, macros, expand⟩ = word ⟨game, macros', expand⟩ := by
    funext head name
    simp only [word, hmacros]
  have hcall : call ⟨game, macros, expand⟩ = call ⟨game, macros', expand⟩ := by
    funext inner stop head name opening tokens
    simp only [call, hmacros]
  funext tokens
  cases tokens with
  | nil => rfl
  | cons token tokens => simp only [operand, hword, hcall]

theorem Reader.disjunction_congr (expand : Macro → Token → List (List Token) → Parse Formula)
    (depth : Nat) :
    disjunction ⟨game, macros, expand⟩ depth = disjunction ⟨game, macros', expand⟩ depth := by
  induction depth with
  | zero => rfl
  | succ depth ih =>
      funext stop tokens
      simp only [disjunction, ih, operand_congr hmacros]

theorem Reader.formula_congr (expand : Macro → Token → List (List Token) → Parse Formula)
    (stop : Nat) : formula ⟨game, macros, expand⟩ stop = formula ⟨game, macros', expand⟩ stop := by
  funext tokens
  rw [formula, formula, disjunction_congr hmacros]

theorem expansion_congr (depth : Nat) :
    expansion game macros depth = expansion game macros' depth := by
  induction depth with
  | zero => rfl
  | succ depth ih =>
      funext entry head arguments
      rw [expansion, expansion, ih, Reader.formula_congr hmacros]

/-- Texts are read alike by macros that are found alike. -/
theorem Requirement.parse_congr :
    Requirement.parse game macros = Requirement.parse game macros' := by
  have hformula : Formula.parse game macros = Formula.parse game macros' := by
    funext text
    simp only [Formula.parse, Dialect.ofMacros, expansion_congr hmacros,
      Reader.formula_congr hmacros]
  funext symbols text
  simp only [Requirement.parse, hformula]

end Macros

/-! ## Reading again -/

namespace Requirement

variable {game : Game} {macros : MacroTable} {symbols read later : Symbols} {text : String}
  {requirement : Requirement}

/-- A text that was read is read again as the same requirement, over all symbols that have
its names, and names nothing new. -/
theorem parse_again (hparse : Requirement.parse game macros symbols text = (.ok requirement, read))
    (hextends : later.Extends read) :
    Requirement.parse game macros later text = (.ok requirement, later) := by
  have hdescribes := Grammar.describes_ofMacros game macros maxMacroDepth
  rcases (parse_eq_ok_iff hdescribes).mp hparse with ⟨formula, hspells, rfl, rfl⟩
  have hknown : formula.Known (symbols.mentionAll formula.mentions) :=
    fun entry hentry => symbols.knows_mentionAll hentry
  refine (parse_eq_ok_iff hdescribes).mpr ⟨formula, hspells, ?_, ?_⟩
  · exact (Symbols.mentionAll_of_knows (hknown.extend hextends)).symm
  · exact (Formula.compile_eq_of_extends hextends formula hknown).symm

/-- What was read is as true as it was, wherever its names stand for the same. -/
theorem eval_eq_of_extends
    (hparse : Requirement.parse game macros symbols text = (.ok requirement, read))
    (hextends : later.Extends read) {view : View} {situation situation' : Situation}
    (hread : read.Shows situation view) (hlater : later.Shows situation' view) :
    requirement.eval situation' = requirement.eval situation := by
  have hdescribes := Grammar.describes_ofMacros game macros maxMacroDepth
  rcases (parse_eq_ok_iff hdescribes).mp hparse with ⟨formula, hspells, rfl, rfl⟩
  have hknown : formula.Known (symbols.mentionAll formula.mentions) :=
    fun entry hentry => symbols.knows_mentionAll hentry
  rw [Formula.eval_compile_of_shows hread formula hknown,
    ← Formula.compile_eq_of_extends hextends formula hknown,
    Formula.eval_compile_of_shows hlater formula (hknown.extend hextends)]

end Requirement

/-! ## Sessions -/

/-- Parsers by number, each with macros of its own, and the symbols that they share. -/
structure Session where
  macros : Nat → MacroTable
  symbols : Symbols

namespace Session

/-- What a parser is called for. -/
inductive Call where
  | define (parser : Nat) (entry : Macro)
  | declare (parser : Nat) (header body : String)
  | parse (parser : Nat) (text : String)

/-- What a call comes to. -/
inductive Answer where
  | done
  | read (requirement : Requirement)
  | refused (error : LogicError)

/-- No macros and no symbols yet. -/
def start : Session :=
  ⟨fun _ => .empty, .empty⟩

/-- Give a parser more macros, if they are not refused. -/
def giveMacros (session : Session) (parser : Nat) : Except LogicError MacroTable → Answer × Session
  | .ok macros => (.done, { session with macros := Function.update session.macros parser macros })
  | .error error => (.refused error, session)

/-- The answer for a text, read or refused. -/
def Answer.ofResult : Except LogicError Requirement → Answer
  | .ok requirement => .read requirement
  | .error error => .refused error

/-- Call a parser.  `games` are the games of the parsers. -/
def call (games : Nat → Game) (session : Session) : Call → Answer × Session
  | .define parser entry =>
      session.giveMacros parser ((session.macros parser).add entry)
  | .declare parser header body =>
      session.giveMacros parser ((session.macros parser).declare header body)
  | .parse parser text =>
      let (result, symbols) :=
        Requirement.parse (games parser) (session.macros parser) session.symbols text
      (.ofResult result, { session with symbols })

/-- The session after some calls. -/
def run (games : Nat → Game) (session : Session) : List Call → Session
  | [] => session
  | first :: calls => run games (session.call games first).2 calls

/-- The names that a call writes down. -/
def mentionsOf (games : Nat → Game) (session : Session) : Call → List Mention
  | .parse parser text => (Formula.parse (games parser) (session.macros parser) text).trace
  | _ => []

/-- The names that some calls write down, one after the other. -/
def mentions (games : Nat → Game) (session : Session) : List Call → List Mention
  | [] => []
  | first :: calls =>
      session.mentionsOf games first ++ mentions games (session.call games first).2 calls

variable {games : Nat → Game} {session : Session}

theorem symbols_giveMacros (parser : Nat) (result : Except LogicError MacroTable) :
    (session.giveMacros parser result).2.symbols = session.symbols := by
  cases result <;> rfl

/-- A call only numbers the names that it writes down. -/
theorem symbols_call (call : Call) :
    (session.call games call).2.symbols =
      session.symbols.mentionAll (session.mentionsOf games call) := by
  cases call with
  | define parser entry => exact symbols_giveMacros parser _
  | declare parser header body => exact symbols_giveMacros parser _
  | parse parser text => rfl

/-- So do calls one after the other. -/
theorem symbols_run (calls : List Call) :
    (session.run games calls).symbols =
      session.symbols.mentionAll (session.mentions games calls) := by
  induction calls generalizing session with
  | nil => rfl
  | cons first calls ih =>
      rw [run, ih, symbols_call, mentions, Symbols.mentionAll_append]

theorem run_extends (games : Nat → Game) (session : Session) (calls : List Call) :
    (session.run games calls).symbols.Extends session.symbols := by
  rw [symbols_run]
  exact session.symbols.extends_mentionAll _

/-- A text is read when the parser reads it. -/
theorem parse_of_call {parser : Nat} {text : String} {requirement : Requirement}
    (hread : (session.call games (.parse parser text)).1 = .read requirement) :
    Requirement.parse (games parser) (session.macros parser) session.symbols text =
      (.ok requirement, (session.call games (.parse parser text)).2.symbols) := by
  have hanswer : Answer.ofResult (Requirement.parse (games parser) (session.macros parser)
      session.symbols text).1 = .read requirement := hread
  refine Prod.ext ?_ rfl
  cases hresult : (Requirement.parse (games parser) (session.macros parser) session.symbols
      text).1 with
  | ok other =>
      rw [hresult] at hanswer
      cases hanswer
      rfl
  | error error =>
      rw [hresult] at hanswer
      cases hanswer

theorem call_of_parse {parser : Nat} {text : String} {requirement : Requirement}
    (hparse : Requirement.parse (games parser) (session.macros parser) session.symbols text =
      (.ok requirement, session.symbols)) :
    session.call games (.parse parser text) = (.read requirement, session) := by
  rw [call, hparse]
  rfl

/-- Whatever parsers of either game are called for, the symbols that they share only grow,
by distinct names that are found by their places, as in a vector and a map that are kept by
hand.  After a text was read once, whatever is called for in between, the requirement has
the same description and is as true as it was, and a parser with the same macros reads the
text again as the same requirement and adds nothing. -/
theorem run_stable (games : Nat → Game) (before between : List Call) :
    (((start.run games before).run games between).symbols.Extends
      (start.run games before).symbols) ∧
    (Registers.empty.mentionAll (start.mentions games before)).InStep
      (start.run games before).symbols ∧
    Indexed (start.run games before).symbols.items.keys
      (start.run games before).symbols.items.get? ∧
    Indexed (start.run games before).symbols.events.keys
      (start.run games before).symbols.events.get? ∧
    Indexed (start.run games before).symbols.settings.keys
      (start.run games before).symbols.settings.get? ∧
    ∀ (parser : Nat) (text : String) (requirement : Requirement) (read later : Session),
      (start.run games before).call games (.parse parser text) = (.read requirement, read) →
      later = read.run games between →
      requirement.describe later.symbols = requirement.describe read.symbols ∧
      (∀ view situation situation', read.symbols.Shows situation view →
        later.symbols.Shows situation' view →
        requirement.eval situation' = requirement.eval situation) ∧
      ∀ again, games again = games parser →
        (∀ name, (later.macros again).find? name =
          ((start.run games before).macros parser).find? name) →
        later.call games (.parse again text) = (.read requirement, later) := by
  refine ⟨run_extends games _ between, ?_, NameTable.indexed _, NameTable.indexed _,
    NameTable.indexed _, ?_⟩
  · rw [symbols_run]
    exact Registers.inStep _
  · rintro parser text requirement read later hcall rfl
    have hparse := parse_of_call (congrArg Prod.fst hcall)
    rw [hcall] at hparse
    have hextends := run_extends games read between
    refine ⟨?_, ?_, ?_⟩
    · exact requirement.describe_eq_of_extends hextends (Requirement.inRange_of_parse hparse)
    · intro view situation situation' hread hlater
      exact Requirement.eval_eq_of_extends hparse hextends hread hlater
    · intro again hgame hmacros
      apply call_of_parse
      rw [hgame, Requirement.parse_congr hmacros]
      exact Requirement.parse_again hparse hextends

/-- A parser of each game. -/
def twoGames : Nat → Game
  | 0 => .oot
  | _ => .mm

/-- The session after a text that was refused and a macro. -/
def armed : Session :=
  start.run twoGames [.parse 1 "has(HOOK) |", .define 0 ⟨"shoots", ["x"], "x & has(BOW)"⟩]

/-- A macro takes up names of a text that was refused.  Texts of the other game and a macro
that is refused come in between. -/
theorem run_stable_armed :
    let between : List Call := [.define 1 ⟨"shoots", [], "has(BOW)"⟩,
      .parse 1 "shoots & setting(mode, x) & event(GOHT", .declare 0 "shoots" "true"]
    ∃ requirement read,
      armed.call twoGames (.parse 0 "shoots(has(OOT_HOOK) | event(RAIN))") =
        (.read requirement, read) ∧
      requirement.describe read.symbols = "((OOT_HOOK | event(OOT_RAIN)) & OOT_BOW)" ∧
      read.symbols.items.keys = ["MM_HOOK", "OOT_HOOK", "OOT_BOW"] ∧
      (read.run twoGames between).symbols.items.keys =
        ["MM_HOOK", "OOT_HOOK", "OOT_BOW", "MM_BOW"] ∧
      requirement.describe (read.run twoGames between).symbols =
        requirement.describe read.symbols ∧
      (read.run twoGames between).call twoGames (.parse 0 "shoots(has(OOT_HOOK) | event(RAIN))") =
        (.read requirement, read.run twoGames between) := by
  intro between
  obtain ⟨requirement, read, hcall⟩ : ∃ requirement read,
      armed.call twoGames (.parse 0 "shoots(has(OOT_HOOK) | event(RAIN))") =
        (.read requirement, read) := ⟨_, _, rfl⟩
  have hstable := (run_stable twoGames _ between).2.2.2.2.2 0 _ requirement read _ hcall rfl
  refine ⟨requirement, read, hcall, ?_, ?_, ?_, hstable.1, hstable.2.2 0 rfl ?_⟩
  all_goals cases hcall
  · decide +kernel
  · decide +kernel
  · decide +kernel
  · exact fun _ => rfl

end Session

end SeedLogic
