import SeedLogic.Proofs.Formula.Appearance
import SeedLogic.Proofs.Formula.Position

/-!
# Writing macros out

A call of a macro can be written out in the text: in its place stands the body of the
macro in parentheses, with the texts of the arguments in the places of the parameters.
What is written shows the faces that the macro is unfolded to (`shown_writtenBody`), so
that reading the text gives the same requirement and the same symbols
(`Requirement.parse_writeOut`).
-/

namespace SeedLogic

open Text (dropBytes)

/-! ## Texts written out -/

/-- Change the words of a text.  `word` is the word begun. -/
def mapWords (change : List Char → List Char) (word : List Char) : List Char → List Char
  | [] => change word
  | char :: chars =>
      if isWordChar char then mapWords change (word ++ [char]) chars
      else change word ++ char :: mapWords change [] chars

namespace Macro

/-- The text of an argument in the place of a parameter: several tokens go into
parentheses. -/
def argumentText (text : List Char) (argument : List Token) : List Char :=
  if 1 < argument.length then '(' :: Token.covered text argument ++ [')']
  else Token.covered text argument

/-- The text that stands for a word of a body: numbers and other names stay. -/
def instantiateWord (bindings : List (String × List Char)) (word : List Char) : List Char :=
  if word.all Char.isDigit then word
  else (bindings.lookup (String.ofList word)).getD word

/-- The body of a macro, with the texts of arguments in the places of the parameters. -/
def writtenBody (entry : Macro) (text : List Char) (arguments : List (List Token)) : List Char :=
  mapWords (instantiateWord (entry.params.zip (arguments.map (argumentText text)))) []
    entry.body.toList

/-- A text in which a call of a macro is written out. -/
def writeOut (entry : Macro) (text : String) (call : List Token)
    (arguments : List (List Token)) : String :=
  String.ofList (Text.slice 0 (Token.nextSpan 0 call).offset text.toList ++
    '(' :: ' ' :: (entry.writtenBody text.toList arguments ++
      ' ' :: ')' :: dropBytes (Reader.argumentStop 0 call) text.toList))

/-! ## Words -/

/-- A word shows a single face, of a number or of a name. -/
theorem face_of_shown_word {word : List Char} {faces : List Face}
    (hwords : ∀ char ∈ word, isWordChar char = true) (hne : word ≠ [])
    (hshown : Shown word faces) :
    ∃ face, faces = [face] ∧
      ((word.all Char.isDigit = true ∧ ∃ value, face.kind = .number value) ∨
        word.all Char.isDigit = false ∧ face.kind = .ident (String.ofList word)) := by
  unfold Shown at hshown
  rw [Lexeme.split_eq_word hwords hne] at hshown
  cases hshown with
  | cons hfirst hrest =>
      cases hrest
      rcases hfirst with ⟨token, htoken, rfl⟩
      refine ⟨token.face, rfl, ?_⟩
      cases hdigits : word.all Char.isDigit with
      | true =>
          simp only [Lexeme.toToken, hdigits, if_true] at htoken
          split at htoken
          · cases htoken
            exact .inl ⟨rfl, _, rfl⟩
          · cases htoken
      | false =>
          simp only [Lexeme.toToken, hdigits] at htoken
          cases htoken
          exact .inr ⟨rfl, rfl⟩

/-- A character that is in no word shows no name, and nothing stands for it. -/
theorem substitute_of_shown_char {char : Char} {faces : List Face}
    (hword : isWordChar char = false) (hshown : Shown [char] faces)
    (bindings : List (String × List Face)) : Face.substitute bindings faces = faces := by
  unfold Shown at hshown
  rcases Lexeme.split_cases char with hsplit | hsplit | ⟨htrue, -⟩
  · rw [hsplit] at hshown
    cases hshown
    rfl
  · rw [hsplit] at hshown
    cases hshown with
    | cons hfirst hrest =>
        cases hrest
        rcases hfirst with ⟨token, htoken, rfl⟩
        have hkind : ∀ name, token.face.kind ≠ .ident name := by
          intro name
          simp only [Lexeme.toToken] at htoken
          split at htoken
          case h_1 kind hsign =>
            cases htoken
            unfold Lexeme.signKind? at hsign
            split at hsign <;> cases hsign <;> exact TokenKind.noConfusion
          case h_2 => cases htoken
        rw [Face.substitute, List.flatMap_singleton, Face.instantiate]
        split
        case h_1 name hname => exact absurd hname (hkind name)
        case h_2 => rfl
  · rw [hword] at htrue
    cases htrue

/-! ## Bodies -/

/-- What stands for a parameter is one of the arguments. -/
theorem mem_of_lookup_zip {params : List String} {arguments : List (List Token)} {name : String}
    {argument : List Token} (hlookup : (params.zip arguments).lookup name = some argument) :
    argument ∈ arguments := by
  rcases List.lookup_eq_some_iff.mp hlookup with ⟨left, right, hzip, -⟩
  have hpair : (name, argument) ∈ params.zip arguments := by
    rw [hzip]
    exact List.mem_append_right _ List.mem_cons_self
  exact (List.of_mem_zip hpair).2

/-- The text of an argument shows its faces, in parentheses when there are several. -/
theorem shown_argumentText {text : List Char} {argument : List Token}
    (hshown : Shown (Token.covered text argument) (argument.map Token.face)) :
    Shown (argumentText text argument) (Face.grouped (argument.map Token.face)) := by
  unfold argumentText
  rcases argument with _ | ⟨first, _ | ⟨second, others⟩⟩
  · exact hshown
  · exact hshown
  · have hnothing : Shown [] [] := .nil
    have hclosing : Shown [')'] [⟨.rparen, ")"⟩] := hnothing.cons_sign rfl
    rw [if_pos (by simp)]
    exact (hshown.append hclosing (apart_of_first rfl)).cons_sign rfl

section Bindings

variable {text : List Char} {params : List String} {arguments : List (List Token)}
  (harguments : ∀ argument ∈ arguments,
    Shown (Token.covered text argument) (argument.map Token.face))
include harguments

/-- What stands for a word shows what stands for its face. -/
theorem shown_instantiateWord {word : List Char} {faces : List Face}
    (hwords : ∀ char ∈ word, isWordChar char = true) (hshown : Shown word faces) :
    Shown (instantiateWord (params.zip (arguments.map (argumentText text))) word)
      (Face.substitute (params.zip (arguments.map (List.map Token.face))) faces) := by
  by_cases hne : word = []
  · subst hne
    cases hshown
    exact .nil
  · rcases face_of_shown_word hwords hne hshown with ⟨face, rfl, hcases⟩
    rw [Face.substitute, List.flatMap_singleton, Face.instantiate, instantiateWord]
    rcases hcases with ⟨hdigits, value, hkind⟩ | ⟨hdigits, hkind⟩
    · rw [if_pos hdigits, hkind]
      exact hshown
    · rw [hdigits, if_neg Bool.false_ne_true, hkind]
      simp only [lookup_zip_map]
      cases hlookup : (params.zip arguments).lookup (String.ofList word) with
      | none => exact hshown
      | some argument =>
          exact shown_argumentText (harguments argument (mem_of_lookup_zip hlookup))

/-- A body written out shows the faces of the body with the faces of the arguments. -/
theorem shown_mapWords {word chars : List Char} {faces : List Face}
    (hwords : ∀ char ∈ word, isWordChar char = true) (hshown : Shown (word ++ chars) faces) :
    Shown (mapWords (instantiateWord (params.zip (arguments.map (argumentText text)))) word chars)
      (Face.substitute (params.zip (arguments.map (List.map Token.face))) faces) := by
  induction chars generalizing word faces with
  | nil =>
      rw [List.append_nil] at hshown
      exact shown_instantiateWord harguments hwords hshown
  | cons char chars ih =>
      rw [mapWords]
      by_cases hword : isWordChar char = true
      · rw [if_pos hword]
        apply ih
        · intro other hother
          rcases List.mem_append.mp hother with hbefore | hlast
          · exact hwords other hbefore
          · rw [List.mem_singleton.mp hlast]
            exact hword
        · rwa [List.append_assoc, List.singleton_append]
      · rw [if_neg hword]
        rw [Bool.not_eq_true] at hword
        rcases (shown_append_iff (apart_of_first hword)).mp hshown with
          ⟨before, behind, rfl, hbefore, hbehind⟩
        rcases (shown_cons_iff hword).mp hbehind with ⟨single, rest, rfl, hsingle, hrest⟩
        have hlater := ih (fun _ hmem => absurd hmem List.not_mem_nil) hrest
        rw [Face.substitute, List.flatMap_append, List.flatMap_append]
        apply (shown_instantiateWord harguments hwords hbefore).append
        · apply (shown_cons_iff hword).mpr
          refine ⟨single, _, ?_, hsingle, hlater⟩
          congr 1
          exact substitute_of_shown_char hword hsingle _
        · exact apart_of_first hword

end Bindings

/-- What is written for a macro shows the faces of its body with the faces of the
arguments. -/
theorem shown_writtenBody {entry : Macro} {body : List Token} (hbody : scan entry.body = .ok body)
    {text : List Char} {arguments : List (List Token)}
    (harguments : ∀ argument ∈ arguments,
      Shown (Token.covered text argument) (argument.map Token.face)) :
    Shown (entry.writtenBody text arguments)
      (Face.substitute (entry.params.zip (arguments.map (List.map Token.face)))
        (body.map Token.face)) :=
  shown_mapWords harguments (fun _ hmem => absurd hmem List.not_mem_nil) (shown_of_scan hbody)

/-- The arguments of a call stand in its text. -/
theorem stands_of_called {macros : MacroTable} {entry : Macro}
    {arguments : List (List Token)} {call : List Token}
    (hcalled : Called macros entry arguments call) {text : String} {left right : List Token}
    (hscan : scan text = .ok (left ++ (call ++ right))) {argument : List Token}
    (hmem : argument ∈ arguments) :
    argument ≠ [] ∧ ∃ before after, scan text = .ok (before ++ (argument ++ after)) := by
  cases hcalled with
  | name => cases hmem
  | @arguments head opening _ _ _ behind _ _ _ hread =>
      rcases Reader.infix_of_splitArguments hread hmem with hnone | ⟨hne, before, after, hsplit⟩
      · cases hnone
      · rw [List.nil_append] at hsplit
        refine ⟨hne, left ++ head :: opening :: before, after ++ right, ?_⟩
        rw [hscan, ← hsplit]
        simp

/-- Arguments are covered by texts that show their faces. -/
theorem shown_covered_of_called {macros : MacroTable} {entry : Macro}
    {arguments : List (List Token)} {call : List Token}
    (hcalled : Called macros entry arguments call) {text : String} {left right : List Token}
    (hscan : scan text = .ok (left ++ (call ++ right))) {argument : List Token}
    (hmem : argument ∈ arguments) :
    Shown (Token.covered text.toList argument) (argument.map Token.face) := by
  rcases stands_of_called hcalled hscan hmem with ⟨hne, before, after, hstands⟩
  exact (shown_parts hstands hne).2.1

/-- A text in which a call is written out shows the body of the macro, in parentheses, in
the place of the call. -/
theorem shown_writeOut {macros : MacroTable} {entry : Macro} {arguments : List (List Token)}
    {call : List Token} (hcalled : Called macros entry arguments call) {text : String}
    {left right : List Token} (hscan : scan text = .ok (left ++ (call ++ right)))
    {body : List Token} (hbody : scan entry.body = .ok body) :
    Shown (entry.writeOut text call arguments).toList
      (left.map Token.face ++ (⟨.lparen, "("⟩ :: Face.substitute
        (entry.params.zip (arguments.map (List.map Token.face))) (body.map Token.face) ++
          [⟨.rparen, ")"⟩]) ++ right.map Token.face) := by
  have hne : call ≠ [] := by
    cases hcalled <;> exact List.cons_ne_nil _ _
  obtain ⟨hleft, -, hright⟩ := shown_parts hscan hne
  have hwritten := shown_writtenBody hbody
    fun argument hmem => shown_covered_of_called hcalled hscan hmem
  have hclosing := (hright.cons_sign (show Lexeme.signKind? ')' = some .rparen from rfl)).cons_blank
  have hinside := (hwritten.append hclosing (apart_of_first rfl)).cons_blank
  have hopening := hinside.cons_sign (show Lexeme.signKind? '(' = some .lparen from rfl)
  have hwhole := hleft.append hopening (apart_of_first rfl)
  rw [writeOut, String.toList_ofList]
  simpa using hwhole

end Macro

/-! ## Reading -/

/-- Writing out a call of a macro that is an operand changes neither the requirement nor
the symbols. -/
theorem Requirement.parse_writeOut {game : Game} {macros : MacroTable}
    {symbols later : Symbols} {text : String} {requirement : Requirement}
    (hparse : Requirement.parse game macros symbols text = (.ok requirement, later))
    {left call right : List Token} (hscan : scan text = .ok (left ++ (call ++ right)))
    {entry : Macro} {arguments : List (List Token)}
    (hcalled : Macro.Called macros entry arguments call)
    (hplace : (Grammar.ofMacros game macros maxMacroDepth).OperandIn (left.map Token.face)
      (call.map Token.face) (right.map Token.face)) :
    Requirement.parse game macros symbols (entry.writeOut text call arguments) =
      (.ok requirement, later) := by
  have hdescribes := Grammar.describes_ofMacros game macros maxMacroDepth
  rcases Grammar.derives_unfolded hcalled hplace with ⟨formula, body, hbody, hcall, hunfolded⟩
  rcases exists_scan_of_shown (Macro.shown_writeOut hcalled hscan hbody) with
    ⟨tokens, htokens, hfaces⟩
  have hbefore : (Grammar.ofMacros game macros maxMacroDepth).Spells text formula := by
    refine ⟨_, tokenize_eq_ok_iff.mpr hscan, ?_⟩
    rwa [List.map_append, List.map_append, ← List.append_assoc]
  have hafter : (Grammar.ofMacros game macros maxMacroDepth).Spells
      (entry.writeOut text call arguments) formula := by
    refine ⟨tokens, tokenize_eq_ok_iff.mpr htokens, ?_⟩
    rwa [hfaces]
  rcases (Requirement.parse_eq_ok_iff hdescribes).mp hparse with ⟨other, hother, rfl, rfl⟩
  obtain rfl := hother.unique hdescribes hbefore
  exact (Requirement.parse_eq_ok_iff hdescribes).mpr ⟨other, hafter, rfl, rfl⟩

/-- A macro with two parameters, of which the first is used under `&`. -/
def crossing : Macro :=
  ⟨"m", ["a", "b"], "X & a | b"⟩

/-- The argument `A | C` of the macro goes into parentheses. -/
theorem Requirement.parse_writeOut_crossing :
    ∃ requirement later,
      Requirement.parse .oot ⟨[crossing]⟩ .empty "Y & !m(A | C, B)" = (.ok requirement, later) ∧
      Requirement.parse .oot ⟨[crossing]⟩ .empty "Y & !( X & (A | C) | B )" =
        (.ok requirement, later) := by
  have hdescribes := Grammar.describes_ofMacros .oot ⟨[crossing]⟩ maxMacroDepth
  obtain ⟨requirement, hparse⟩ : ∃ requirement,
      Requirement.parse .oot ⟨[crossing]⟩ .empty "Y & !m(A | C, B)" = (.ok requirement, _) :=
    ⟨_, rfl⟩
  refine ⟨requirement, _, hparse, ?_⟩
  let first : List Token := [⟨.ident "A", 7, "A"⟩, ⟨.or, 9, "|"⟩, ⟨.ident "C", 11, "C"⟩]
  let second : List Token := [⟨.ident "B", 14, "B"⟩]
  let call : List Token := ⟨.ident "m", 5, "m"⟩ :: ⟨.lparen, 6, "("⟩ ::
    (first ++ ⟨.comma, 12, ","⟩ :: second ++ [⟨.rparen, 15, ")"⟩])
  have hcalled : Macro.Called ⟨[crossing]⟩ crossing [first, second] call :=
    .arguments rfl rfl rfl rfl
  obtain ⟨used, hused, hderives⟩ := (Reader.operand_sound
    (Reader.disjunction_sound hdescribes 9) hdescribes 0 call _ _ [] rfl).2
  rw [List.append_nil] at hused
  rw [← hused] at hderives
  let left : List Token := [⟨.ident "Y", 0, "Y"⟩, ⟨.and, 2, "&"⟩, ⟨.not, 4, "!"⟩]
  have hname : (Grammar.ofMacros .oot ⟨[crossing]⟩ maxMacroDepth).Derives .unary
      [⟨.ident "Y", "Y"⟩] [.item (Game.oot.symbolName "Y") 1] :=
    .plain (.item rfl (fun value => by cases value <;> decide) rfl)
  have haround : ∀ value, (Grammar.ofMacros .oot ⟨[crossing]⟩ maxMacroDepth).Around value
      (.series .and) ([⟨.ident "Y", "Y"⟩] ++ ⟨.and, "&"⟩ :: [⟨.not, "!"⟩]) []
      [.item (Game.oot.symbolName "Y") 1, .not value] :=
    fun _ => .later hname rfl (.last (.negation rfl (.plain .here)))
  have hplace : (Grammar.ofMacros .oot ⟨[crossing]⟩ maxMacroDepth).OperandIn
      (left.map Token.face) (call.map Token.face) ([].map Token.face) :=
    ⟨_, _, hderives, .disjunction (.last (.conjunction (haround _)))⟩
  have hscan : scan "Y & !m(A | C, B)" = .ok (left ++ (call ++ [])) := rfl
  have hwritten : crossing.writeOut "Y & !m(A | C, B)" call [first, second] =
      "Y & !( X & (A | C) | B )" := rfl
  rw [← hwritten]
  exact parse_writeOut hparse hscan hcalled hplace

end SeedLogic
