import Mathlib.Data.List.Forall2
import SeedLogic.Formula.Parser

/-!
# The grammar of requirement texts

Which tokens are a formula, said without a reader.  A grammar looks at the faces of
tokens, not at their places.  `Derives` has one constructor for each production:

* a disjunction is a series of conjunctions, separated by `|`;
* a conjunction is a series of unary operands, separated by `&`;
* a unary operand is a primary one, behind any number of `!`;
* a primary operand is a parenthesized disjunction, a constant, an item, a call of a
  function, or a macro, whose meaning the grammar is given (`expands`).
-/

namespace SeedLogic

/-- A token without its place. -/
structure Face where
  kind : TokenKind
  text : String
  deriving DecidableEq, Repr

/-- What a token looks like. -/
def Token.face (token : Token) : Face :=
  ⟨token.kind, token.text⟩

@[simp]
theorem Token.kind_face (token : Token) : token.face.kind = token.kind :=
  rfl

theorem Token.kind_of_face {token : Token} {face : Face} {kind : TokenKind}
    (hface : token.face = face) (hkind : face.kind = kind) : token.kind = kind :=
  (congrArg Face.kind hface).trans hkind

/-! ## Arguments -/

/-- Inside `level` open parentheses, do the faces close all of them, and no others,
without a comma outside of parentheses? -/
def isArgument : (level : Nat) → List Face → Bool
  | level, [] => level == 0
  | level, face :: faces =>
      match face.kind, level with
      | .lparen, level => isArgument (level + 1) faces
      | .rparen, level + 1 => isArgument level faces
      | .rparen, 0 => false
      | .comma, 0 => false
      | _, level => isArgument level faces

/-- Faces between the parentheses of a call, and the arguments that they are. -/
inductive ArgumentList : List (List Face) → List Face → Prop where
  | none : ArgumentList [] []
  | last {part : List Face} : part ≠ [] → isArgument 0 part = true → ArgumentList [part] part
  | more {part next : List Face} {parts : List (List Face)} {comma : Face} {faces : List Face} :
      part ≠ [] → isArgument 0 part = true → comma.kind = .comma →
      ArgumentList (next :: parts) faces →
      ArgumentList (part :: next :: parts) (part ++ comma :: faces)

/-! ## Productions -/

/-- What separates the terms of a series. -/
inductive Separator where
  | or
  | and
  | comma
  deriving DecidableEq, Repr

/-- The kind of token that a separator is. -/
def Separator.kind : Separator → TokenKind
  | .or => .or
  | .and => .and
  | .comma => .comma

/-- The categories of the grammar. -/
inductive Category where
  | disjunction
  | conjunction
  | unary
  | primary
  | series (separator : Separator)
  deriving DecidableEq, Repr

/-- The category of what a separator separates. -/
def Separator.term : Separator → Category
  | .or => .conjunction
  | .and => .unary
  | .comma => .disjunction

/-- The spelling of a constant. -/
def constantName : Bool → String
  | true => "true"
  | false => "false"

/-- Calls of functions whose arguments are no formulas. -/
inductive Applies (game : Game) : Reader.Builtin → List (List Face) → Formula → Prop where
  | has {item : Face} {name : String} :
      item.kind = .ident name →
      Applies game .has [[item]] (.item (game.symbolName name) 1)
  | hasMany {item number : Face} {name : String} {count : Nat} :
      item.kind = .ident name → number.kind = .number count → 1 ≤ count →
      Applies game .has [[item], [number]] (.item (game.symbolName name) count)
  | event {event : Face} {name : String} :
      event.kind = .ident name →
      Applies game .event [[event]] (.event (game.symbolName name))
  | setting {setting : Face} {name : String} :
      setting.kind = .ident name →
      Applies game .setting [[setting]] (.setting ⟨name, none⟩)
  | settingValue {setting value : Face} {name : String} :
      setting.kind = .ident name →
      Applies game .setting [[setting], [value]] (.setting ⟨name, some value.text⟩)

/-- What derivations depend on: the game whose names are untagged, its macros, and what
a macro with arguments stands for. -/
structure Grammar where
  game : Game
  macros : MacroTable
  expands : Macro → List (List Face) → Formula → Prop

/-- Faces of a category, and the formula that they are: for a series, the formulas of
its terms. -/
inductive Grammar.Derives (grammar : Grammar) : Category → List Face → List Formula → Prop where
  | last {separator : Separator} {faces : List Face} {term : Formula} :
      Derives grammar separator.term faces [term] →
      Derives grammar (.series separator) faces [term]
  | more {separator : Separator} {mark : Face} {left right : List Face} {term : Formula}
      {terms : List Formula} :
      Derives grammar separator.term left [term] → mark.kind = separator.kind →
      Derives grammar (.series separator) right terms →
      Derives grammar (.series separator) (left ++ mark :: right) (term :: terms)
  | disjunction {faces : List Face} {terms : List Formula} :
      Derives grammar (.series .or) faces terms →
      Derives grammar .disjunction faces [Reader.joined .any terms]
  | conjunction {faces : List Face} {terms : List Formula} :
      Derives grammar (.series .and) faces terms →
      Derives grammar .conjunction faces [Reader.joined .all terms]
  | negation {mark : Face} {faces : List Face} {operand : Formula} :
      mark.kind = .not → Derives grammar .unary faces [operand] →
      Derives grammar .unary (mark :: faces) [.not operand]
  | plain {faces : List Face} {operand : Formula} :
      Derives grammar .primary faces [operand] → Derives grammar .unary faces [operand]
  | group {opening closing : Face} {faces : List Face} {formula : Formula} :
      opening.kind = .lparen → Derives grammar .disjunction faces [formula] →
      closing.kind = .rparen →
      Derives grammar .primary (opening :: faces ++ [closing]) [formula]
  | constant {word : Face} {value : Bool} :
      word.kind = .ident (constantName value) → Derives grammar .primary [word] [.const value]
  | item {word : Face} {name : String} :
      word.kind = .ident name → (∀ value, name ≠ constantName value) →
      grammar.macros.find? name = none →
      Derives grammar .primary [word] [.item (grammar.game.symbolName name) 1]
  | apply {head opening closing : Face} {builtin : Reader.Builtin} {arguments : List (List Face)}
      {faces : List Face} {formula : Formula} :
      head.kind = .ident builtin.name → grammar.macros.find? builtin.name = none →
      opening.kind = .lparen → ArgumentList arguments faces → closing.kind = .rparen →
      Applies grammar.game builtin arguments formula →
      Derives grammar .primary (head :: opening :: faces ++ [closing]) [formula]
  | atLeast {head opening number comma closing : Face} {count : Nat} {faces : List Face}
      {operands : List Formula} :
      head.kind = .ident (Reader.Builtin.name .atLeast) →
      grammar.macros.find? (Reader.Builtin.name .atLeast) = none →
      opening.kind = .lparen → number.kind = .number count → comma.kind = .comma →
      Derives grammar (.series .comma) faces operands → closing.kind = .rparen →
      Derives grammar .primary (head :: opening :: number :: comma :: faces ++ [closing])
        [.atLeast count operands]
  | macroName {word : Face} {name : String} {entry : Macro} {formula : Formula} :
      word.kind = .ident name → (∀ value, name ≠ constantName value) →
      grammar.macros.find? name = some entry → entry.params = [] →
      grammar.expands entry [] formula → Derives grammar .primary [word] [formula]
  | macroCall {head opening closing : Face} {name : String} {entry : Macro}
      {arguments : List (List Face)} {faces : List Face} {formula : Formula} :
      head.kind = .ident name → grammar.macros.find? name = some entry →
      opening.kind = .lparen → ArgumentList arguments faces → closing.kind = .rparen →
      grammar.expands entry arguments formula →
      Derives grammar .primary (head :: opening :: faces ++ [closing]) [formula]

namespace Grammar

variable {grammar : Grammar} {category : Category} {faces : List Face} {formulas : List Formula}

/-- Macros that stand for no less derive no less. -/
theorem Derives.mono {expands : Macro → List (List Face) → Formula → Prop}
    (hexpands : ∀ entry arguments formula, grammar.expands entry arguments formula →
      expands entry arguments formula)
    (hderives : grammar.Derives category faces formulas) :
    Derives { grammar with expands } category faces formulas := by
  induction hderives with
  | last _ ih => exact .last ih
  | more _ hmark _ ihleft ihright => exact .more ihleft hmark ihright
  | disjunction _ ih => exact .disjunction ih
  | conjunction _ ih => exact .conjunction ih
  | negation hmark _ ih => exact .negation hmark ih
  | plain _ ih => exact .plain ih
  | group hopening _ hclosing ih => exact .group hopening ih hclosing
  | constant hword => exact .constant hword
  | item hword hname hfind => exact .item hword hname hfind
  | apply hhead hfind hopening harguments hclosing happlies =>
      exact .apply hhead hfind hopening harguments hclosing happlies
  | atLeast hhead hfind hopening hnumber hcomma _ hclosing ih =>
      exact .atLeast hhead hfind hopening hnumber hcomma ih hclosing
  | macroName hword hname hfind hparams hexpand =>
      exact .macroName hword hname hfind hparams (hexpands _ _ _ hexpand)
  | macroCall hhead hfind hopening harguments hclosing hexpand =>
      exact .macroCall hhead hfind hopening harguments hclosing (hexpands _ _ _ hexpand)

/-- No formula is empty. -/
theorem Derives.ne_nil (hderives : grammar.Derives category faces formulas) : faces ≠ [] := by
  induction hderives with
  | last _ ih => exact ih
  | more => simp
  | disjunction _ ih => exact ih
  | conjunction _ ih => exact ih
  | plain _ ih => exact ih
  | _ => simp

end Grammar

end SeedLogic
