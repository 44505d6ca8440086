import SeedLogic.Formula.Parser

/-!
# Macro expansion

A macro call stands for the macro's body, with the arguments in the places of
the parameters.  The body is read one level deeper than the call, and at most
`maxMacroDepth` levels are allowed, so that macros which call each other in a
circle are refused.  Whatever is wrong inside an expansion is reported at the
name of the macro, in the text that was given.
-/

namespace SeedLogic

open Text (Span)

/-- How deeply macro calls may nest. -/
def maxMacroDepth : Nat :=
  32

namespace Macro

/-- The tokens that stand for a parameter: an argument of several tokens goes
into parentheses. -/
def grouped : List Token → List Token
  | [] => []
  | [single] => [single]
  | first :: second :: others =>
      ⟨.lparen, first.offset, "("⟩ :: first :: second :: others ++ [⟨.rparen, first.offset, ")"⟩]

/-- The tokens that stand for one token of a body. -/
def instantiate (bindings : List (String × List Token)) (token : Token) : List Token :=
  match token.kind with
  | .ident name =>
      match bindings.lookup name with
      | some argument => grouped argument
      | none => [token]
  | _ => [token]

/-- The tokens of a body, with arguments in the places of the parameters. -/
def substitute (bindings : List (String × List Token)) (body : List Token) : List Token :=
  body.flatMap (instantiate bindings)

end Macro

/-- Report a fault at the place of a macro call. -/
def ParseError.atCall (span : Span) (name : String) : ParseError → ParseError
  | .misread fault => .misread ⟨span, .inMacro name fault.issue⟩
  | error => error

/-- The formula of a macro call, whose tokens `deeper` reads. -/
def Macro.inline (deeper : List Token → Parse Formula) (entry : Macro) (head : Token)
    (arguments : List (List Token)) : Parse Formula :=
  if entry.params.length = arguments.length then
    match scan entry.body with
    | .ok body =>
        (deeper (substitute (entry.params.zip arguments) body)).mapFault
          (ParseError.atCall head.span entry.name)
    | .error fault => .failAt head.span (.inMacro entry.name fault.issue)
  else .failAt head.span (.macroArity entry.name entry.params.length arguments.length)

/-- The formula of a macro call, when calls may nest `depth` levels deep. -/
def expansion (game : Game) (macros : MacroTable) :
    (depth : Nat) → Macro → Token → List (List Token) → Parse Formula
  | 0, entry, _, _ => .fail (.recursiveMacro entry.name)
  | depth + 1, entry, head, arguments =>
      entry.inline (Reader.formula ⟨game, macros, expansion game macros depth⟩ 0) head arguments

/-- The dialect of a game and its macros, when calls may nest `depth` levels deep. -/
def Dialect.ofMacros (game : Game) (macros : MacroTable) (depth : Nat) : Dialect :=
  ⟨game, macros, expansion game macros depth⟩

/-- The error of a text. -/
def ParseError.inText (text : String) : ParseError → LogicError
  | .misread fault => .badSyntax (fault.inText text)
  | .unknownFunction name => .unknownSymbol .function name
  | .recursiveMacro name => .recursiveMacro name maxMacroDepth

/-- Read a requirement text as a formula. -/
def Formula.parse (game : Game) (macros : MacroTable) (text : String) :
    Recorded Mention LogicError Formula :=
  match scan text with
  | .ok tokens =>
      (Reader.formula (.ofMacros game macros maxMacroDepth) text.utf8ByteSize tokens).mapFault
        (ParseError.inText text)
  | .error fault => .fail (.badSyntax (fault.inText text))

/-- Read a requirement text.  The names of the text are numbered, also when the
text is refused further on. -/
def Requirement.parse (game : Game) (macros : MacroTable) (symbols : Symbols) (text : String) :
    Except LogicError Requirement × Symbols :=
  let outcome := Formula.parse game macros text
  let symbols := symbols.mentionAll outcome.trace
  (outcome.result.map (Formula.compile symbols), symbols)

end SeedLogic
