import SeedLogic.Token

/-!
# Macros

A game names recurring requirements by macros.  A macro is declared by a header,
`name` or `name(parameter, …)`, and a body text; `MacroTable` holds the macros of
one game under distinct names.
-/

namespace SeedLogic

open Text (Span)

/-- A named requirement text with parameters. -/
structure Macro where
  name : String
  params : List String
  body : String
  deriving DecidableEq, Repr

/-- The macros of one game. -/
structure MacroTable where
  macros : List Macro

namespace MacroTable

/-- No macros. -/
def empty : MacroTable :=
  ⟨[]⟩

instance : Inhabited MacroTable :=
  ⟨empty⟩

/-- The macro of a name. -/
def find? (table : MacroTable) (name : String) : Option Macro :=
  table.macros.find? fun entry => entry.name == name

/-- Add a macro under a name that is still free. -/
def add (table : MacroTable) (entry : Macro) : Except LogicError MacroTable :=
  if (table.find? entry.name).isSome then .error (.duplicateMacro entry.name)
  else .ok ⟨table.macros ++ [entry]⟩

end MacroTable

/-! ## Headers -/

/-- A macro header: a name and distinct parameters. -/
structure MacroHeader where
  name : String
  params : List String
  deriving DecidableEq, Repr

namespace MacroHeader

/-- A fault where the tokens go on. -/
def unexpected (stop : Nat) (tokens : List Token) (what : Expectation) : Fault :=
  ⟨Token.nextSpan stop tokens, .expected what⟩

/-- The end of a header. -/
def finish (stop : Nat) (header : MacroHeader) : List Token → Except Fault MacroHeader
  | [] => .ok header
  | tokens => .error (unexpected stop tokens .headerEnd)

/-- The parameters behind `params`, each followed by a comma or the closing
parenthesis. -/
def parameters (stop : Nat) (name : String) (params : List String) :
    List Token → Except Fault MacroHeader
  | [] => .error (unexpected stop [] .parameterName)
  | token :: rest =>
      match token.kind with
      | .ident param =>
          if param ∈ params then .error ⟨token.span, .duplicateParameter param⟩
          else
            match rest with
            | [] => .error (unexpected stop [] .parameterSeparator)
            | separator :: rest =>
                match separator.kind with
                | .comma => parameters stop name (params ++ [param]) rest
                | .rparen => finish stop ⟨name, params ++ [param]⟩ rest
                | _ => .error (unexpected stop (separator :: rest) .parameterSeparator)
      | _ => .error (unexpected stop (token :: rest) .parameterName)

/-- What follows the name of a macro: nothing, or parameters in parentheses. -/
def tail (stop : Nat) (name : String) : List Token → Except Fault MacroHeader
  | [] => .ok ⟨name, []⟩
  | opening :: rest =>
      match opening.kind with
      | .lparen =>
          match rest with
          | [] => parameters stop name [] []
          | first :: behind =>
              match first.kind with
              | .rparen => finish stop ⟨name, []⟩ behind
              | _ => parameters stop name [] (first :: behind)
      | _ => .error (unexpected stop (opening :: rest) .headerTail)

/-- Read a header from its tokens. -/
def ofTokens (stop : Nat) : List Token → Except Fault MacroHeader
  | [] => .error (unexpected stop [] .macroName)
  | token :: rest =>
      match token.kind with
      | .ident name => tail stop name rest
      | _ => .error (unexpected stop (token :: rest) .macroName)

/-- Read a header. -/
def parse (text : String) : Except SyntaxError MacroHeader :=
  match scan text >>= ofTokens text.utf8ByteSize with
  | .ok header => .ok header
  | .error fault => .error (fault.inText text)

end MacroHeader

/-- Add the macro that a header and a body declare. -/
def MacroTable.declare (table : MacroTable) (header body : String) :
    Except LogicError MacroTable :=
  match MacroHeader.parse header with
  | .ok header => table.add ⟨header.name, header.params, body⟩
  | .error error => .error (.badSyntax error)

end SeedLogic
