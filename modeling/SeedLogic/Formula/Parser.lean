import SeedLogic.Formula
import SeedLogic.Game
import SeedLogic.Macro
import SeedLogic.Recorded

/-!
# Reading formulas

The grammar of requirement texts, over tokens:

* a disjunction is a series of conjunctions, separated by `|`;
* a conjunction is a series of operands, separated by `&`;
* an operand is a parenthesized disjunction, a constant, an item, a macro or a
  call, behind any number of `!`.

A reader takes the tokens it can use from the front of a list and hands back the
others.  It writes down every name it has understood, also when it fails further
on.  What a macro stands for is left to the `Dialect`.
-/

namespace SeedLogic

open Text (Span)

/-- Why tokens are no formula. -/
inductive ParseError where
  | misread (fault : Fault)
  | unknownFunction (name : String)
  | recursiveMacro (name : String)
  deriving DecidableEq, Repr

/-- The outcome of reading: the names understood, and a result or an error. -/
abbrev Parse (α : Type) :=
  Recorded Mention ParseError α

/-- A reader of something at the front of a list of tokens. -/
abbrev Reader (α : Type) :=
  List Token → Parse (α × List Token)

/-- What the reading of names depends on: the game whose names are untagged, its
macros, and what a macro stands for when a token calls it with arguments. -/
structure Dialect where
  game : Game
  macros : MacroTable
  expand : Macro → Token → List (List Token) → Parse Formula

namespace Parse

/-- A fault at a place. -/
def failAt {α : Type} (span : Span) (issue : SyntaxIssue) : Parse α :=
  .fail (.misread ⟨span, issue⟩)

/-- A name understood, and the formula it makes. -/
def mention (entry : Mention) (formula : Formula) : Parse Formula := do
  .note entry
  pure formula

end Parse

namespace Reader

/-! ## Series -/

/-- Terms separated by one kind of token.  `fuel` bounds their number. -/
def chain (separator : TokenKind) (stop : Nat) (term : Reader Formula) :
    Nat → Reader (List Formula)
  | 0, tokens => .failAt (Token.nextSpan stop tokens) .unexpectedEnd
  | fuel + 1, tokens => do
      let (first, rest) ← term tokens
      match rest with
      | [] => pure ([first], [])
      | token :: behind =>
          if token.kind = separator then do
            let (others, rest) ← chain separator stop term fuel behind
            pure (first :: others, rest)
          else pure ([first], token :: behind)

/-- The formula of a series: its only term, or the terms joined. -/
def joined (join : List Formula → Formula) : List Formula → Formula
  | [single] => single
  | terms => join terms

/-- A series of terms, joined.  Every term takes a token, so that their number is
bounded by that of the tokens. -/
def series (separator : TokenKind) (join : List Formula → Formula) (stop : Nat)
    (term : Reader Formula) : Reader Formula :=
  fun tokens => do
    let (terms, rest) ← chain separator stop term (tokens.length + 1) tokens
    pure (joined join terms, rest)

/-- A term behind any number of `!`. -/
def negated (term : Reader Formula) : Reader Formula
  | [] => term []
  | token :: rest =>
      if token.kind = .not then do
        let (operand, rest) ← negated term rest
        pure (.not operand, rest)
      else term (token :: rest)

/-! ## Arguments -/

/-- Split the tokens behind an opening parenthesis into arguments: the tokens up
to the matching parenthesis, cut at the commas that no inner parentheses
enclose.  `level` counts the inner parentheses open, `part` holds the tokens of
the argument begun and `parts` the arguments before it. -/
def splitArguments (stop : Nat) (level : Nat) (part : List Token) (parts : List (List Token)) :
    Reader (List (List Token))
  | [] => .failAt ⟨stop, 0⟩ .unclosedArguments
  | token :: rest =>
      match token.kind, level with
      | .lparen, level => splitArguments stop (level + 1) (part ++ [token]) parts rest
      | .rparen, level + 1 => splitArguments stop level (part ++ [token]) parts rest
      | .rparen, 0 =>
          match part, parts with
          | [], [] => pure ([], rest)
          | [], _ :: _ => .failAt token.span .emptyArgument
          | _ :: _, parts => pure (parts ++ [part], rest)
      | .comma, 0 =>
          match part with
          | [] => .failAt token.span .emptyArgument
          | _ :: _ => splitArguments stop 0 [] (parts ++ [part]) rest
      | _, level => splitArguments stop level (part ++ [token]) parts rest

/-- The arguments behind an opening parenthesis. -/
def arguments (stop : Nat) : Reader (List (List Token)) :=
  splitArguments stop 0 [] []

/-- The offset at which an argument ends. -/
def argumentStop (stop : Nat) (argument : List Token) : Nat :=
  (argument.getLast?.map Token.stop).getD stop

/-- The identifier that an argument is. -/
def identifier (stop : Nat) : List Token → Parse String
  | [⟨.ident name, _, _⟩] => pure name
  | argument => .failAt (Token.nextSpan stop argument) (.expected .singleIdentifier)

/-- The number that an argument is. -/
def number (stop : Nat) : List Token → Parse Nat
  | [⟨.number value, _, _⟩] => pure value
  | argument => .failAt (Token.nextSpan stop argument) (.expected .number)

/-- The spelling of the token that an argument is. -/
def settingValue (stop : Nat) : List Token → Parse String
  | [token] => pure token.text
  | argument => .failAt (Token.nextSpan stop argument) (.expected .singleSettingValue)

/-- The end of the tokens. -/
def finish (formula : Formula) : List Token → Parse Formula
  | [] => pure formula
  | token :: _ => .failAt token.span .trailingInput

/-- A whole list of tokens as one formula. -/
def whole (reader : Reader Formula) (tokens : List Token) : Parse Formula := do
  let (formula, rest) ← reader tokens
  finish formula rest

/-! ## Calls -/

/-- The functions that requirement texts can call. -/
inductive Builtin where
  | has
  | event
  | setting
  | atLeast
  deriving DecidableEq, Repr

namespace Builtin

def name : Builtin → String
  | .has => "has"
  | .event => "event"
  | .setting => "setting"
  | .atLeast => "at_least"

def all : List Builtin :=
  [.has, .event, .setting, .atLeast]

def ofName? (name : String) : Option Builtin :=
  all.find? fun builtin => builtin.name == name

/-- How many arguments a function takes. -/
def arity : Builtin → Arity
  | .has => .oneOrTwo
  | .event => .one
  | .setting => .oneOrTwo
  | .atLeast => .twoOrMore

end Builtin

/-- An item with a count, which must not be zero. -/
def itemCount (game : Game) (stop : Nat) (item count : List Token) : Parse Formula := do
  let name ← identifier stop item
  let least ← number stop count
  if least = 0 then .failAt (Token.nextSpan stop count) .zeroCount
  else .mention (.item (game.symbolName name)) (.item (game.symbolName name) least)

/-- Arguments that are formulas, one after the other. -/
def operands (inner : Nat → Reader Formula) (stop : Nat) :
    List (List Token) → Parse (List Formula)
  | [] => pure []
  | argument :: arguments => do
      let first ← whole (inner (argumentStop stop argument)) argument
      let others ← operands inner stop arguments
      pure (first :: others)

/-- A call of a function.  `opening` is the place of its parenthesis, and `inner`
reads a formula that ends at a given offset. -/
def builtinCall (game : Game) (inner : Nat → Reader Formula) (stop : Nat) (opening : Span)
    (builtin : Builtin) (arguments : List (List Token)) : Parse Formula :=
  match builtin, arguments with
  | .has, [item] => do
      let name ← identifier stop item
      .mention (.item (game.symbolName name)) (.item (game.symbolName name) 1)
  | .has, [item, count] => itemCount game stop item count
  | .event, [event] => do
      let name ← identifier stop event
      .mention (.event (game.symbolName name)) (.event (game.symbolName name))
  | .setting, [setting] => do
      let name ← identifier stop setting
      .mention (.setting ⟨name, none⟩) (.setting ⟨name, none⟩)
  | .setting, [setting, value] => do
      let name ← identifier stop setting
      let value ← settingValue stop value
      .mention (.setting ⟨name, some value⟩) (.setting ⟨name, some value⟩)
  | .atLeast, count :: first :: others => do
      let least ← number stop count
      let formulas ← operands inner stop (first :: others)
      pure (.atLeast least formulas)
  | builtin, arguments =>
      .failAt opening (.functionArity builtin.name builtin.arity arguments.length)

/-- A call of a macro or of a function, behind its opening parenthesis. -/
def call (dialect : Dialect) (inner : Nat → Reader Formula) (stop : Nat) (head : Token)
    (name : String) (opening : Token) : Reader Formula :=
  fun tokens => do
    let (parts, rest) ← arguments stop tokens
    let formula ←
      match dialect.macros.find? name with
      | some entry => dialect.expand entry head parts
      | none =>
          match Builtin.ofName? name with
          | some builtin => builtinCall dialect.game inner stop opening.span builtin parts
          | none => .fail (.unknownFunction name)
    pure (formula, rest)

/-- A name that is not called: a constant, a macro without parameters or an item. -/
def word (dialect : Dialect) (head : Token) (name : String) : Parse Formula :=
  if name = "true" then pure (.const true)
  else if name = "false" then pure (.const false)
  else
    match dialect.macros.find? name with
    | some entry =>
        if entry.params.isEmpty then dialect.expand entry head []
        else .failAt head.span (.macroNeedsArguments name entry.params.length)
    | none =>
        let fullName := dialect.game.symbolName name
        .mention (.item fullName) (.item fullName 1)

/-- A closing parenthesis. -/
def closing (stop : Nat) (formula : Formula) : List Token → Parse (Formula × List Token)
  | [] => .failAt ⟨stop, 0⟩ (.expected .closingParenthesis)
  | token :: rest =>
      if token.kind = .rparen then pure (formula, rest)
      else .failAt token.span (.expected .closingParenthesis)

/-- An operand without `!`. -/
def operand (dialect : Dialect) (inner : Nat → Reader Formula) (stop : Nat) : Reader Formula
  | [] => .failAt ⟨stop, 0⟩ .unexpectedEnd
  | token :: rest =>
      match token.kind with
      | .lparen => do
          let (formula, rest) ← inner stop rest
          closing stop formula rest
      | .ident name =>
          match rest with
          | [] => do
              let formula ← word dialect token name
              pure (formula, [])
          | opening :: behind =>
              if opening.kind = .lparen then
                call dialect inner stop token name opening behind
              else do
                let formula ← word dialect token name
                pure (formula, opening :: behind)
      | _ => .failAt token.span .unexpectedToken

/-! ## Formulas -/

/-- A disjunction.  `depth` bounds how deeply parentheses nest. -/
def disjunction (dialect : Dialect) : (depth : Nat) → (stop : Nat) → Reader Formula
  | 0, stop, tokens => .failAt (Token.nextSpan stop tokens) .unexpectedEnd
  | depth + 1, stop, tokens =>
      series .or .any stop
        (series .and .all stop
          (negated (operand dialect (disjunction dialect depth) stop))) tokens

/-- A list of tokens as one formula.  Parentheses cannot nest deeper than there
are tokens. -/
def formula (dialect : Dialect) (stop : Nat) (tokens : List Token) : Parse Formula :=
  whole (disjunction dialect (tokens.length + 1) stop) tokens

end Reader

end SeedLogic
