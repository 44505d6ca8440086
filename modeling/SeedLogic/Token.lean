import SeedLogic.Error
import SeedLogic.Text.Blank
import SeedLogic.Text.Decimal

/-!
# Tokens of requirement texts

A text is first cut into lexemes: maximal words, and single other characters
that are not blank.  A lexeme is then read as a token.  The cut looks at one
character at a time and never fails; only reading a lexeme can, so the first
fault of a text is the fault of its first bad lexeme.
-/

namespace SeedLogic

open Text (Span isBlank decimalValue)

/-- What a token is. -/
inductive TokenKind where
  | ident (name : String)
  | number (value : Nat)
  | lparen
  | rparen
  | comma
  | and
  | or
  | not
  | eof
  deriving DecidableEq, Repr

/-- A token with its place and its spelling. -/
structure Token where
  kind : TokenKind
  offset : Nat
  text : String
  deriving DecidableEq, Repr

/-- The place of a token. -/
def Token.span (token : Token) : Span :=
  ⟨token.offset, token.text.utf8ByteSize⟩

/-- The offset just behind a token. -/
def Token.stop (token : Token) : Nat :=
  token.span.stop

/-- The place where a list of tokens goes on, which is `stop` when none is left. -/
def Token.nextSpan (stop : Nat) : List Token → Span
  | [] => ⟨stop, 0⟩
  | token :: _ => token.span

/-! ## Lexemes -/

/-- Words consist of ASCII letters, digits and underscores. -/
def isWordChar (char : Char) : Bool :=
  char.isAlphanum || char == '_'

/-- A piece of a text: a word, or any other single character. -/
inductive Lexeme where
  | word (offset : Nat) (chars : List Char)
  | sign (offset : Nat) (char : Char)
  deriving DecidableEq, Repr

namespace Lexeme

/-- Put a word character in front of the lexemes behind it: it joins a word that
begins just after it. -/
def attach (offset : Nat) (char : Char) : List Lexeme → List Lexeme
  | .word start chars :: rest =>
      if start = offset + 1 then .word offset (char :: chars) :: rest
      else .word offset [char] :: .word start chars :: rest
  | rest => .word offset [char] :: rest

/-- The lexemes of a text that begins at an offset. -/
def split : Nat → List Char → List Lexeme
  | _, [] => []
  | offset, char :: chars =>
      let rest := split (offset + char.utf8Size) chars
      if isBlank char then rest
      else if isWordChar char then attach offset char rest
      else .sign offset char :: rest

@[simp]
theorem split_nil (offset : Nat) : split offset [] = [] :=
  rfl

theorem split_cons (offset : Nat) (char : Char) (chars : List Char) :
    split offset (char :: chars) =
      if isBlank char then split (offset + char.utf8Size) chars
      else if isWordChar char then attach offset char (split (offset + char.utf8Size) chars)
      else .sign offset char :: split (offset + char.utf8Size) chars :=
  rfl

/-- The kind of token that a single character is. -/
def signKind? : Char → Option TokenKind
  | '(' => some .lparen
  | ')' => some .rparen
  | ',' => some .comma
  | '&' => some .and
  | '|' => some .or
  | '!' => some .not
  | _ => none

/-- Numbers have 32 bits. -/
def numberLimit : Nat :=
  Nat.pow 2 32

/-- Read a lexeme.  A word of digits is a number, any other word an identifier. -/
def toToken : Lexeme → Except Fault Token
  | .word offset chars =>
      let text := String.ofList chars
      if chars.all Char.isDigit then
        if decimalValue chars < numberLimit then
          .ok ⟨.number (decimalValue chars), offset, text⟩
        else .error ⟨⟨offset, text.utf8ByteSize⟩, .numberOutOfRange⟩
      else .ok ⟨.ident text, offset, text⟩
  | .sign offset char =>
      match signKind? char with
      | some kind => .ok ⟨kind, offset, char.toString⟩
      | none => .error ⟨⟨offset, char.utf8Size⟩, .unexpectedCharacter char⟩

end Lexeme

/-! ## Texts -/

/-- The tokens of a text, without an end mark. -/
def scan (text : String) : Except Fault (List Token) :=
  (Lexeme.split 0 text.toList).mapM Lexeme.toToken

/-- The mark behind the last token of a text. -/
def Token.endOf (text : String) : Token :=
  ⟨.eof, text.utf8ByteSize, ""⟩

/-- The tokens of a text, closed by its end mark. -/
def tokenize (text : String) : Except SyntaxError (List Token) :=
  match scan text with
  | .ok tokens => .ok (tokens ++ [Token.endOf text])
  | .error fault => .error (fault.inText text)

end SeedLogic
