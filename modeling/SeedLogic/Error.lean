import SeedLogic.Check
import SeedLogic.Location
import SeedLogic.Text.Span

/-!
# Errors

Everything that can be wrong with requirement texts, game tables and the options
of a run, by cause.  Each type has one function that words it.
-/

namespace SeedLogic

open Text (Span)

/-- What a name was supposed to name. -/
inductive SymbolKind where
  | item
  | event
  | setting
  | function
  | gossip
  deriving DecidableEq, Repr

/-- How messages call a kind of name. -/
def SymbolKind.describe : SymbolKind → String
  | .item => "item"
  | .event => "event"
  | .setting => "setting"
  | .function => "function"
  | .gossip => "point of interest"

/-! ## Syntax -/

/-- What a text should have gone on with. -/
inductive Expectation where
  | macroName
  | headerTail
  | parameterName
  | parameterSeparator
  | headerEnd
  | closingParenthesis
  | singleIdentifier
  | number
  | singleSettingValue
  deriving DecidableEq, Repr

def Expectation.describe : Expectation → String
  | .macroName => "macro name"
  | .headerTail => "'(' or end of header"
  | .parameterName => "parameter name"
  | .parameterSeparator => "',' or ')'"
  | .headerEnd => "end of header"
  | .closingParenthesis => "')'"
  | .singleIdentifier => "a single identifier"
  | .number => "a number"
  | .singleSettingValue => "a single setting value"

/-- How many arguments a built-in function takes. -/
inductive Arity where
  | one
  | oneOrTwo
  | twoOrMore
  deriving DecidableEq, Repr

def Arity.describe : Arity → String
  | .one => "1"
  | .oneOrTwo => "1 or 2"
  | .twoOrMore => "2 or more"

/-- What is wrong at a place of a text. -/
inductive SyntaxIssue where
  | unexpectedCharacter (char : Char)
  | numberOutOfRange
  | expected (what : Expectation)
  | duplicateParameter (name : String)
  | unclosedArguments
  | emptyArgument
  | trailingInput
  | unexpectedEnd
  | unexpectedToken
  | zeroCount
  | functionArity (name : String) (arity : Arity) (given : Nat)
  | macroNeedsArguments (name : String) (arity : Nat)
  | macroArity (name : String) (arity given : Nat)
  | inMacro (name : String) (issue : SyntaxIssue)
  deriving DecidableEq, Repr

/-- The wording of an issue. -/
def SyntaxIssue.message : SyntaxIssue → String
  | .unexpectedCharacter char => "unexpected character '" ++ char.toString ++ "'"
  | .numberOutOfRange => "number out of range"
  | .expected what => "expected " ++ what.describe
  | .duplicateParameter name => "duplicate parameter '" ++ name ++ "'"
  | .unclosedArguments => "unclosed argument list"
  | .emptyArgument => "empty argument"
  | .trailingInput => "unexpected trailing input"
  | .unexpectedEnd => "unexpected end of input"
  | .unexpectedToken => "unexpected token"
  | .zeroCount => "item count must be at least 1"
  | .functionArity name arity given =>
      "'" ++ name ++ "' expects " ++ arity.describe ++ " argument(s), got " ++ toString given
  | .macroNeedsArguments name arity =>
      "macro '" ++ name ++ "' expects " ++ toString arity ++ " argument(s)"
  | .macroArity name arity given =>
      "macro '" ++ name ++ "' expects " ++ toString arity ++ " argument(s), got " ++
        toString given
  | .inMacro name issue => "in macro '" ++ name ++ "': " ++ issue.message

/-- An issue and its place, in a text left open. -/
structure Fault where
  span : Span
  issue : SyntaxIssue
  deriving DecidableEq, Repr

/-- An issue at a place of a text. -/
structure SyntaxError where
  input : String
  span : Span
  issue : SyntaxIssue
  deriving DecidableEq, Repr

namespace SyntaxError

/-- The offset at which the text is wrong. -/
def offset (error : SyntaxError) : Nat :=
  error.span.offset

/-- The piece of the text that is wrong. -/
def fragment (error : SyntaxError) : String :=
  error.span.fragment error.input

def message (error : SyntaxError) : String :=
  "syntax error at offset " ++ toString error.offset ++ " near '" ++ error.fragment ++
    "' in '" ++ error.input ++ "': " ++ error.issue.message

end SyntaxError

/-- The text of a fault. -/
def Fault.inText (fault : Fault) (text : String) : SyntaxError :=
  ⟨text, fault.span, fault.issue⟩

/-! ## Tables and options -/

/-- What refers to an area that does not exist. -/
inductive AreaReference where
  | area (name : String)
  | tableStart
  | runStart
  deriving DecidableEq, Repr

def AreaReference.describe : AreaReference → String
  | .area name => name
  | .tableStart => "start"
  | .runStart => "pathfinder start"

/-- Why a check of a table is refused. -/
inductive CheckIssue where
  | numberNeeded (kind : NumericKind) (id : String)
  | nameNeeded (kind : SymbolicKind) (id : Nat)
  deriving DecidableEq, Repr

def CheckIssue.message : CheckIssue → String
  | .numberNeeded kind id =>
      kind.name ++ " check requires a numeric id, got '" ++ id ++ "'"
  | .nameNeeded kind id =>
      kind.name ++ " check requires a symbolic id, got " ++ toString id

/-- Why the options of a run are refused. -/
inductive OptionIssue where
  | placementSurplus (players worlds : Nat)
  | unknownSlot (name : String)
  | startingSurplus (player : WorldId) (worlds : Nat)
  | unknownStartingItem (item : ItemId) (world : WorldId)
  | unknownStartingEvent (event : EventId) (world : WorldId)
  | unknownPlacementLocation (location : Location)
  | unknownPlacedItem (placed : PlayerItem)
  | unknownForbiddenLocation (location : Location)
  | noStartArea (world : WorldId)
  | unknownWorld (world : WorldId)
  deriving DecidableEq, Repr

def OptionIssue.message : OptionIssue → String
  | .placementSurplus players worlds =>
      "placement for " ++ toString players ++ " players, but only " ++ toString worlds ++
        " worlds"
  | .unknownSlot name => "unknown location '" ++ name ++ "'"
  | .startingSurplus player worlds =>
      "starting items for player " ++ toString player ++ ", but only " ++ toString worlds ++
        " worlds"
  | .unknownStartingItem item world =>
      "starting item " ++ toString item ++ " does not exist in world " ++ toString world
  | .unknownStartingEvent event world =>
      "starting event " ++ toString event ++ " does not exist in world " ++ toString world
  | .unknownPlacementLocation location =>
      "placement location " ++ location.describe ++ " does not exist"
  | .unknownPlacedItem placed => "placed item " ++ placed.describe ++ " does not exist"
  | .unknownForbiddenLocation location =>
      "forbidden location " ++ location.describe ++ " does not exist"
  | .noStartArea world => "empty set of start areas for world " ++ toString world
  | .unknownWorld world => "world " ++ toString world ++ " does not exist"

/-! ## All causes -/

/-- Why requirement texts, tables or options are refused. -/
inductive LogicError where
  | badSyntax (error : SyntaxError)
  | unknownSymbol (kind : SymbolKind) (name : String)
  | recursiveMacro (name : String) (depth : Nat)
  | duplicateMacro (name : String)
  | missingArea (name : String) (referencedBy : AreaReference)
  | missingLocation (name area : String)
  | duplicateArea (name : String)
  | duplicateCheck (name : String)
  | duplicateGossip (name : String)
  | invalidCheck (location : String) (issue : CheckIssue)
  | invalidOptions (issue : OptionIssue)
  deriving DecidableEq, Repr

/-- The wording of an error. -/
def LogicError.message : LogicError → String
  | .badSyntax error => error.message
  | .unknownSymbol kind name => "unknown " ++ kind.describe ++ ": " ++ name
  | .recursiveMacro name depth =>
      "expansion of macro '" ++ name ++ "' exceeded depth " ++ toString depth
  | .duplicateMacro name => "duplicate macro definition: " ++ name
  | .missingArea name referencedBy =>
      "missing area '" ++ name ++ "' (referenced by " ++ referencedBy.describe ++ ")"
  | .missingLocation name area =>
      "missing location '" ++ name ++ "' (referenced by area " ++ area ++ ")"
  | .duplicateArea name => "duplicate area: " ++ name
  | .duplicateCheck name => "duplicate check: " ++ name
  | .duplicateGossip name => "duplicate point of interest: " ++ name
  | .invalidCheck location issue => "invalid check '" ++ location ++ "': " ++ issue.message
  | .invalidOptions issue => "invalid pathfinder options: " ++ issue.message

end SeedLogic
