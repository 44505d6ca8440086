import SeedLogic.Proofs.Formula.Appearance
import SeedLogic.Proofs.Formula.Unfolding
import SeedLogic.Proofs.Requirement.Atoms

/-!
# What formulas speak of can be written

The faces of a text are spelled as a text can be (`Face.Legible`), and expanding macros
moves such faces around and adds parentheses.  So whatever a text speaks of, through
however many macros, has a name that can be written down again (`legible_of_spells`).
-/

namespace SeedLogic

open Text (decimalValue)

/-- A name that can be written: a word that is not a number. -/
structure IsName (name : String) : Prop where
  words : ∀ char ∈ name.toList, isWordChar char = true
  letter : name.toList.all Char.isDigit = false

/-- A full name that can be written. -/
structure IsSymbolName (name : String) : Prop extends IsName name where
  namespaced : isNamespaced name symbolSeparator = true

/-- Faces whose kind is what their text is read as. -/
inductive Face.Legible : Face → Prop where
  | name {name : String} : IsName name → Legible ⟨.ident name, name⟩
  | number {text : String} : text.toList ≠ [] → text.toList.all Char.isDigit = true →
      decimalValue text.toList < Lexeme.numberLimit →
      Legible ⟨.number (decimalValue text.toList), text⟩
  | sign {char : Char} {kind : TokenKind} : Lexeme.signKind? char = some kind →
      Legible ⟨kind, char.toString⟩

/-! ## Names -/

/-- Whether a text is a name is found by going through it. -/
theorem IsName.of_all {name : String} (hwords : name.toList.all isWordChar = true)
    (hletter : name.toList.all Char.isDigit = false) : IsName name :=
  ⟨List.all_eq_true.mp hwords, hletter⟩

theorem IsName.ne_nil {name : String} (hname : IsName name) : name.toList ≠ [] := by
  intro hnil
  have hletter := hname.letter
  rw [hnil] at hletter
  cases hletter

/-- Full names of names are names. -/
theorem IsName.symbolName {name : String} (hname : IsName name) (game : Game) :
    IsSymbolName (game.symbolName name) := by
  refine ⟨?_, isNamespaced_namespaced game name symbolSeparator⟩
  rw [Game.symbolName, Game.namespaced]
  split
  · exact hname
  · have htag : IsName game.tag := by
      cases game <;> exact .of_all rfl rfl
    constructor
    · intro char hchar
      rw [String.toList_append, String.toList_ofList, List.mem_append, List.mem_cons] at hchar
      rcases hchar with hchar | rfl | hchar
      · exact htag.words char hchar
      · rfl
      · exact hname.words char hchar
    · rw [String.toList_append, List.all_append, htag.letter, Bool.false_and]

/-- No full name is a constant. -/
theorem IsSymbolName.ne_constantName {name : String} (hname : IsSymbolName name) (value : Bool) :
    name ≠ constantName value := by
  rintro rfl
  have hnamespaced := hname.namespaced
  revert hnamespaced
  cases value <;> decide

/-! ## Faces of texts -/

namespace Lexeme

/-- Words of a text consist of word characters. -/
theorem isWordChar_of_mem_split {place start : Nat} {text word : List Char}
    (hmem : .word start word ∈ split place text) :
    word ≠ [] ∧ ∀ char ∈ word, isWordChar char = true := by
  induction text generalizing place start word with
  | nil => cases hmem
  | cons char text ih =>
      rcases split_cases char with hsplit | hsplit | ⟨hword, -, hsplit⟩
      · rw [hsplit] at hmem
        exact ih hmem
      · rw [hsplit, List.mem_cons] at hmem
        rcases hmem with hmem | hmem
        · cases hmem
        · exact ih hmem
      · rw [hsplit] at hmem
        rcases attach_eq place char (split (place + 1) text) with
          ⟨later, others, hrest, hattach⟩ | ⟨-, hattach⟩
        · rw [hattach, List.mem_cons] at hmem
          rcases hmem with hmem | hmem
          · cases hmem
            have hlater := ih (hrest ▸ List.mem_cons_self)
            exact ⟨List.cons_ne_nil _ _, List.forall_mem_cons.mpr ⟨hword, hlater.2⟩⟩
          · exact ih (hrest ▸ List.mem_cons_of_mem _ hmem)
        · rw [hattach, List.mem_cons] at hmem
          rcases hmem with hmem | hmem
          · cases hmem
            exact ⟨List.cons_ne_nil _ _, List.forall_mem_singleton.mpr hword⟩
          · exact ih hmem

/-- A token that is read off a lexeme of a text has a legible face. -/
theorem legible_of_toToken {place : Nat} {text : List Char} {lexeme : Lexeme} {token : Token}
    (hmem : lexeme ∈ split place text) (htoken : lexeme.toToken = .ok token) :
    token.face.Legible := by
  cases lexeme with
  | word start word =>
      rcases isWordChar_of_mem_split hmem with ⟨hne, hwords⟩
      cases hdigits : word.all Char.isDigit with
      | true =>
          simp only [toToken, hdigits, if_true] at htoken
          split at htoken
          case isTrue hlimit =>
            cases htoken
            have hlegible := @Face.Legible.number (String.ofList word)
            rw [String.toList_ofList] at hlegible
            exact hlegible hne hdigits hlimit
          case isFalse => cases htoken
      | false =>
          simp only [toToken, hdigits] at htoken
          cases htoken
          refine .name ⟨?_, ?_⟩
          · rwa [String.toList_ofList]
          · rwa [String.toList_ofList]
  | sign start char =>
      simp only [toToken] at htoken
      split at htoken
      case h_1 kind hkind =>
        cases htoken
        exact .sign hkind
      case h_2 => cases htoken

end Lexeme

/-- The faces of a text are legible. -/
theorem legible_of_scan {text : String} {tokens : List Token} (hscan : scan text = .ok tokens) :
    ∀ face ∈ tokens.map Token.face, face.Legible := by
  intro face hface
  rcases List.mem_map.mp hface with ⟨token, htoken, rfl⟩
  rcases Outcome.exists_of_mem_mapM hscan htoken with ⟨lexeme, hlexeme, hread⟩
  exact Lexeme.legible_of_toToken hlexeme hread

namespace Face

/-! ## Legible faces -/

theorem Legible.isName {face : Face} (hlegible : face.Legible) {name : String}
    (hkind : face.kind = .ident name) : IsName name := by
  cases hlegible with
  | name hname =>
      cases hkind
      exact hname
  | number => cases hkind
  | sign hsign =>
      cases hkind
      unfold Lexeme.signKind? at hsign
      split at hsign <;> cases hsign

theorem Legible.lt_numberLimit {face : Face} (hlegible : face.Legible) {value : Nat}
    (hkind : face.kind = .number value) : value < Lexeme.numberLimit := by
  cases hlegible with
  | name => cases hkind
  | number _ _ hlimit =>
      cases hkind
      exact hlimit
  | sign hsign =>
      cases hkind
      unfold Lexeme.signKind? at hsign
      split at hsign <;> cases hsign

theorem legible_grouped {argument : List Face} (hargument : ∀ face ∈ argument, face.Legible) :
    ∀ face ∈ grouped argument, face.Legible := by
  rcases argument with _ | ⟨first, _ | ⟨second, others⟩⟩
  · exact hargument
  · exact hargument
  · intro face hface
    rw [grouped, List.mem_append, List.mem_cons, List.mem_singleton] at hface
    rcases hface with (rfl | hface) | rfl
    · exact @Legible.sign '(' .lparen rfl
    · exact hargument face hface
    · exact @Legible.sign ')' .rparen rfl

/-- Substitution keeps faces legible. -/
theorem legible_substitute (params : List String) {arguments : List (List Face)}
    {body : List Face} (harguments : ∀ argument ∈ arguments, ∀ face ∈ argument, face.Legible)
    (hbody : ∀ face ∈ body, face.Legible) :
    ∀ face ∈ substitute (params.zip arguments) body, face.Legible := by
  intro face hface
  rcases List.mem_flatMap.mp hface with ⟨original, horiginal, hface⟩
  have hself : face ∈ [original] → face.Legible := fun hmem =>
    List.mem_singleton.mp hmem ▸ hbody original horiginal
  unfold instantiate at hface
  split at hface
  case h_1 name _ =>
    split at hface
    case h_1 argument hlookup =>
      rcases List.lookup_eq_some_iff.mp hlookup with ⟨left, right, hzip, -⟩
      have hpair : (name, argument) ∈ params.zip arguments :=
        hzip ▸ List.mem_append_right _ List.mem_cons_self
      exact legible_grouped (harguments argument (List.of_mem_zip hpair).2) face hface
    case h_2 => exact hself hface
  case h_2 => exact hself hface

end Face

/-! ## Legible terms -/

/-- A term that can be written down, over the syntax of a text. -/
def Formula.Term.Legible : Formula.Term → Prop
  | .item name count => IsSymbolName name ∧ 1 ≤ count ∧ count < Lexeme.numberLimit
  | .event name => IsSymbolName name
  | .setting key => IsName key.name ∧ ∀ value, key.value? = some value →
      ∃ face : Face, face.Legible ∧ face.text = value ∧ isArgument 0 [face] = true
  | .quorum count => count < Lexeme.numberLimit

theorem Formula.exists_of_mem_terms_joined {join : List Formula → Formula}
    (hjoin : ∀ formulas, (join formulas).terms = termsOfAll formulas) {formulas : List Formula}
    {term : Term} (hterm : term ∈ (Reader.joined join formulas).terms) :
    ∃ formula ∈ formulas, term ∈ formula.terms := by
  unfold Reader.joined at hterm
  split at hterm
  case h_1 single => exact ⟨single, List.mem_cons_self, hterm⟩
  case h_2 => exact mem_termsOfAll.mp (hjoin formulas ▸ hterm)

/-- Every argument of a call is one, and its faces are those of the call. -/
theorem ArgumentList.mem {parts : List (List Face)} {faces : List Face}
    (harguments : ArgumentList parts faces) {part : List Face} (hpart : part ∈ parts) :
    isArgument 0 part = true ∧ part ⊆ faces := by
  induction harguments with
  | none => cases hpart
  | last _ hargument =>
      cases List.mem_singleton.mp hpart
      exact ⟨hargument, List.Subset.refl _⟩
  | more _ hargument _ _ ih =>
      rcases List.mem_cons.mp hpart with rfl | hpart
      · exact ⟨hargument, List.subset_append_left _ _⟩
      · rcases ih hpart with ⟨hlater, hsubset⟩
        refine ⟨hlater, fun face hface => ?_⟩
        exact List.mem_append_right _ (List.mem_cons_of_mem _ (hsubset hface))

/-- Functions that are called with legible arguments make legible terms. -/
theorem Applies.legible {game : Game} {builtin : Reader.Builtin} {arguments : List (List Face)}
    {formula : Formula} (happlies : Applies game builtin arguments formula)
    (harguments : ∀ argument ∈ arguments, isArgument 0 argument = true)
    (hfaces : ∀ argument ∈ arguments, ∀ face ∈ argument, face.Legible) :
    ∀ term ∈ formula.terms, term.Legible := by
  have hface : ∀ {face : Face}, [face] ∈ arguments → face.Legible := fun hmem =>
    hfaces _ hmem _ List.mem_cons_self
  cases happlies with
  | has hname =>
      rw [Formula.terms, List.forall_mem_singleton]
      exact ⟨((hface List.mem_cons_self).isName hname).symbolName game, Nat.le_refl 1, by decide⟩
  | hasMany hname hcount hpositive =>
      rw [Formula.terms, List.forall_mem_singleton]
      exact ⟨((hface List.mem_cons_self).isName hname).symbolName game, hpositive,
        (hface (List.mem_cons_of_mem _ List.mem_cons_self)).lt_numberLimit hcount⟩
  | event hname =>
      rw [Formula.terms, List.forall_mem_singleton]
      exact ((hface List.mem_cons_self).isName hname).symbolName game
  | setting hname =>
      rw [Formula.terms, List.forall_mem_singleton]
      exact ⟨(hface List.mem_cons_self).isName hname, nofun⟩
  | settingValue hname =>
      rw [Formula.terms, List.forall_mem_singleton]
      refine ⟨(hface List.mem_cons_self).isName hname, ?_⟩
      rintro _ ⟨⟩
      exact ⟨_, hface (List.mem_cons_of_mem _ List.mem_cons_self), rfl,
        harguments _ (List.mem_cons_of_mem _ List.mem_cons_self)⟩

namespace Grammar

variable {grammar : Grammar}

/-- Legible faces are legible formulas, if macros stand for legible formulas. -/
theorem Derives.legible
    (hexpands : ∀ entry arguments formula, grammar.expands entry arguments formula →
      (∀ argument ∈ arguments, ∀ face ∈ argument, face.Legible) →
        ∀ term ∈ formula.terms, term.Legible)
    {category : Category} {faces : List Face} {formulas : List Formula}
    (hderives : grammar.Derives category faces formulas) (hfaces : ∀ face ∈ faces, face.Legible) :
    ∀ formula ∈ formulas, ∀ term ∈ formula.terms, term.Legible := by
  induction hderives with
  | last _ ih => exact ih hfaces
  | more _ _ _ ihleft ihright =>
      rw [List.forall_mem_append, List.forall_mem_cons] at hfaces
      exact List.forall_mem_cons.mpr
        ⟨ihleft hfaces.1 _ List.mem_cons_self, ihright hfaces.2.2⟩
  | disjunction _ ih =>
      rw [List.forall_mem_singleton]
      intro term hterm
      rcases Formula.exists_of_mem_terms_joined (fun _ => by rw [Formula.terms]) hterm with
        ⟨formula, hmem, hterm⟩
      exact ih hfaces formula hmem term hterm
  | conjunction _ ih =>
      rw [List.forall_mem_singleton]
      intro term hterm
      rcases Formula.exists_of_mem_terms_joined (fun _ => by rw [Formula.terms]) hterm with
        ⟨formula, hmem, hterm⟩
      exact ih hfaces formula hmem term hterm
  | negation _ _ ih =>
      rw [List.forall_mem_singleton, Formula.terms]
      exact ih (List.forall_mem_cons.mp hfaces).2 _ List.mem_cons_self
  | plain _ ih => exact ih hfaces
  | group _ _ _ ih =>
      rw [List.forall_mem_append, List.forall_mem_cons] at hfaces
      exact ih hfaces.1.2
  | constant =>
      rw [List.forall_mem_singleton, Formula.terms]
      exact nofun
  | item hword =>
      rw [List.forall_mem_singleton] at hfaces
      rw [List.forall_mem_singleton, Formula.terms, List.forall_mem_singleton]
      exact ⟨(hfaces.isName hword).symbolName _, Nat.le_refl 1, by decide⟩
  | apply _ _ _ harguments _ happlies =>
      rw [List.forall_mem_append, List.forall_mem_cons, List.forall_mem_cons] at hfaces
      rw [List.forall_mem_singleton]
      exact happlies.legible (fun argument hmem => (harguments.mem hmem).1)
        fun argument hmem face hface => hfaces.1.2.2 face ((harguments.mem hmem).2 hface)
  | atLeast _ _ _ hnumber _ _ _ ih =>
      simp only [List.forall_mem_append, List.forall_mem_cons] at hfaces
      rw [List.forall_mem_singleton, Formula.terms, List.forall_mem_cons]
      refine ⟨hfaces.1.2.2.1.lt_numberLimit hnumber, fun term hterm => ?_⟩
      rcases Formula.mem_termsOfAll.mp hterm with ⟨operand, hmem, hterm⟩
      exact ih hfaces.1.2.2.2.2 operand hmem term hterm
  | macroName _ _ _ _ hexpand =>
      rw [List.forall_mem_singleton]
      exact hexpands _ _ _ hexpand nofun
  | macroCall _ _ _ harguments _ hexpand =>
      rw [List.forall_mem_append, List.forall_mem_cons, List.forall_mem_cons] at hfaces
      rw [List.forall_mem_singleton]
      exact hexpands _ _ _ hexpand
        fun argument hmem face hface => hfaces.1.2.2 face ((harguments.mem hmem).2 hface)

/-- Macros with legible arguments stand for legible formulas. -/
theorem legible_of_unfolds {game : Game} {macros : MacroTable} {depth : Nat} {entry : Macro}
    {arguments : List (List Face)} {formula : Formula}
    (hunfolds : Unfolds game macros depth entry arguments formula)
    (harguments : ∀ argument ∈ arguments, ∀ face ∈ argument, face.Legible) :
    ∀ term ∈ formula.terms, term.Legible := by
  induction depth generalizing entry arguments formula with
  | zero => exact hunfolds.elim
  | succ depth ih =>
      rcases hunfolds with ⟨-, body, hbody, hderives⟩
      have hfaces := Face.legible_substitute entry.params harguments (legible_of_scan hbody)
      exact hderives.legible (fun _ _ _ => ih) hfaces formula List.mem_cons_self

/-- What a text speaks of can be written down. -/
theorem legible_of_spells {game : Game} {macros : MacroTable} {depth : Nat} {text : String}
    {formula : Formula} (hspells : (ofMacros game macros depth).Spells text formula) :
    ∀ term ∈ formula.terms, term.Legible := by
  rcases hspells with ⟨tokens, htokens, hderives⟩
  exact hderives.legible (fun _ _ _ => legible_of_unfolds)
    (legible_of_scan (tokenize_eq_ok_iff.mp htokens)) formula List.mem_cons_self

end Grammar

end SeedLogic
