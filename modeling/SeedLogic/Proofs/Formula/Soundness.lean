import SeedLogic.Proofs.Formula.Arguments

/-!
# Readers follow the grammar

What a reader takes from the front of its tokens is derived by the grammar, and what
it writes down on the way are the names of the formula it hands back.  Each reader has
one lemma, which assumes this of the readers inside it.
-/

namespace SeedLogic

/-- A dialect reads the names of a grammar: same game and macros, and a macro of theirs
that is expanded stands for its formula. -/
structure Grammar.Describes (grammar : Grammar) (dialect : Dialect) : Prop where
  game : dialect.game = grammar.game
  macros : dialect.macros = grammar.macros
  expand : ∀ {name entry head arguments trace formula},
    grammar.macros.find? name = some entry →
      (dialect.expand entry head arguments = ⟨trace, .ok formula⟩ ↔
        trace = formula.mentions ∧
          grammar.expands entry (arguments.map (List.map Token.face)) formula)

namespace Reader

/-- A reader takes only what is derived. -/
def Follows (reader : Reader Formula) (derives : List Face → Formula → Prop) : Prop :=
  ∀ tokens trace formula rest, reader tokens = ⟨trace, .ok (formula, rest)⟩ →
    trace = formula.mentions ∧ ∃ used, tokens = used ++ rest ∧
      derives (used.map Token.face) formula

variable {grammar : Grammar} {dialect : Dialect} {stop : Nat}

/-! ## Series -/

theorem chain_sound {separator : Separator} {term : Reader Formula}
    (hterm : term.Follows fun faces formula => grammar.Derives separator.term faces [formula])
    {fuel : Nat} {tokens rest : List Token} {trace : List Mention} {terms : List Formula}
    (hchain : chain separator.kind stop term fuel tokens = ⟨trace, .ok (terms, rest)⟩) :
    trace = Formula.mentionsOfAll terms ∧ ∃ used, tokens = used ++ rest ∧
      grammar.Derives (.series separator) (used.map Token.face) terms := by
  induction fuel generalizing tokens trace terms with
  | zero => cases hchain
  | succ fuel ih =>
      rw [chain] at hchain
      rcases Recorded.bind_eq_ok_iff.mp hchain with
        ⟨early, ⟨first, behind⟩, late, hfirst, hnext, rfl⟩
      rcases hterm _ _ _ _ hfirst with ⟨rfl, used, rfl, hderives⟩
      cases behind with
      | nil =>
          cases hnext
          exact ⟨rfl, used, rfl, .last hderives⟩
      | cons mark behind =>
          by_cases hmark : mark.kind = separator.kind
          · simp only [if_pos hmark] at hnext
            rcases Recorded.bind_eq_ok_iff.mp hnext with
              ⟨middle, ⟨others, left⟩, last, hothers, hresult, rfl⟩
            cases hresult
            rcases ih hothers with ⟨rfl, used', rfl, hrest⟩
            refine ⟨by simp [Formula.mentionsOfAll], used ++ mark :: used', by simp, ?_⟩
            rw [List.map_append, List.map_cons]
            exact .more hderives hmark hrest
          · simp only [if_neg hmark] at hnext
            cases hnext
            exact ⟨rfl, used, rfl, .last hderives⟩

theorem mentions_joined {join : List Formula → Formula}
    (hjoin : ∀ terms, (join terms).mentions = Formula.mentionsOfAll terms)
    (terms : List Formula) : (joined join terms).mentions = Formula.mentionsOfAll terms := by
  unfold joined
  split
  · simp [Formula.mentionsOfAll]
  · exact hjoin _

theorem series_sound (separator : Separator) {join : List Formula → Formula}
    {term : Reader Formula}
    (hterm : term.Follows fun faces formula => grammar.Derives separator.term faces [formula])
    (hjoin : ∀ terms, (join terms).mentions = Formula.mentionsOfAll terms)
    {derives : List Face → Formula → Prop}
    (hderives : ∀ {faces terms}, grammar.Derives (.series separator) faces terms →
      derives faces (joined join terms)) :
    (series separator.kind join stop term).Follows derives := by
  intro tokens trace formula rest hseries
  rcases Recorded.bind_eq_ok_iff.mp hseries with
    ⟨early, ⟨terms, behind⟩, late, hchain, hresult, rfl⟩
  cases hresult
  rcases chain_sound hterm hchain with ⟨rfl, used, rfl, hterms⟩
  refine ⟨?_, used, rfl, hderives hterms⟩
  rw [mentions_joined hjoin, List.append_nil]

theorem negated_sound {term : Reader Formula}
    (hterm : term.Follows fun faces formula => grammar.Derives .primary faces [formula]) :
    (negated term).Follows fun faces formula => grammar.Derives .unary faces [formula] := by
  intro tokens
  induction tokens with
  | nil =>
      intro trace formula rest hread
      rcases hterm _ _ _ _ hread with ⟨htrace, used, hused, hderives⟩
      exact ⟨htrace, used, hused, .plain hderives⟩
  | cons token tokens ih =>
      intro trace formula rest hread
      rw [negated] at hread
      split at hread
      case isTrue hmark =>
        rcases Recorded.bind_eq_ok_iff.mp hread with
          ⟨early, ⟨operand, behind⟩, late, hoperand, hresult, rfl⟩
        cases hresult
        rcases ih _ _ _ hoperand with ⟨rfl, used, rfl, hderives⟩
        refine ⟨?_, token :: used, rfl, .negation hmark hderives⟩
        rw [Formula.mentions, List.append_nil]
      case isFalse =>
        rcases hterm _ _ _ _ hread with ⟨htrace, used, hused, hderives⟩
        exact ⟨htrace, used, hused, .plain hderives⟩

/-! ## Calls of functions -/

theorem identifier_eq_ok {argument : List Token} {trace : List Mention} {name : String}
    (hread : identifier stop argument = ⟨trace, .ok name⟩) :
    trace = [] ∧ ∃ token, argument = [token] ∧ token.kind = .ident name := by
  unfold identifier at hread
  split at hread
  · cases hread
    exact ⟨rfl, _, rfl, rfl⟩
  · cases hread

theorem number_eq_ok {argument : List Token} {trace : List Mention} {value : Nat}
    (hread : number stop argument = ⟨trace, .ok value⟩) :
    trace = [] ∧ ∃ token, argument = [token] ∧ token.kind = .number value := by
  unfold number at hread
  split at hread
  · cases hread
    exact ⟨rfl, _, rfl, rfl⟩
  · cases hread

theorem settingValue_eq_ok {argument : List Token} {trace : List Mention} {value : String}
    (hread : settingValue stop argument = ⟨trace, .ok value⟩) :
    trace = [] ∧ ∃ token, argument = [token] ∧ token.text = value := by
  unfold settingValue at hread
  split at hread
  · cases hread
    exact ⟨rfl, _, rfl, rfl⟩
  · cases hread

theorem mention_eq_ok {entry : Mention} {made formula : Formula} {trace : List Mention}
    (hread : Parse.mention entry made = ⟨trace, .ok formula⟩) :
    trace = [entry] ∧ made = formula := by
  cases hread
  exact ⟨rfl, rfl⟩

theorem itemCount_sound {game : Game} {item count : List Token} {trace : List Mention}
    {formula : Formula} (hread : itemCount game stop item count = ⟨trace, .ok formula⟩) :
    trace = formula.mentions ∧
      Applies game .has [item.map Token.face, count.map Token.face] formula := by
  rcases Recorded.bind_eq_ok_iff.mp hread with ⟨early, name, late, hname, hrest, rfl⟩
  rcases Recorded.bind_eq_ok_iff.mp hrest with ⟨middle, least, last, hcount, hlast, rfl⟩
  rcases identifier_eq_ok hname with ⟨rfl, token, rfl, hkind⟩
  rcases number_eq_ok hcount with ⟨rfl, digits, rfl, hvalue⟩
  split at hlast
  case isTrue => cases hlast
  case isFalse hpositive =>
    rcases mention_eq_ok hlast with ⟨rfl, rfl⟩
    exact ⟨by simp [Formula.mentions], .hasMany hkind hvalue (Nat.pos_of_ne_zero hpositive)⟩

theorem whole_sound {reader : Reader Formula} {derives : List Face → Formula → Prop}
    (hreader : reader.Follows derives) {tokens : List Token} {trace : List Mention}
    {formula : Formula} (hread : whole reader tokens = ⟨trace, .ok formula⟩) :
    trace = formula.mentions ∧ derives (tokens.map Token.face) formula := by
  rcases Recorded.bind_eq_ok_iff.mp hread with ⟨early, ⟨made, rest⟩, late, hmade, hfinish, rfl⟩
  rcases hreader _ _ _ _ hmade with ⟨rfl, used, rfl, hderives⟩
  cases rest with
  | nil =>
      cases hfinish
      rw [List.append_nil, List.append_nil]
      exact ⟨rfl, hderives⟩
  | cons => cases hfinish

section Inner

variable {inner : Nat → Reader Formula}
  (hinner : ∀ stop, (inner stop).Follows fun faces formula =>
    grammar.Derives .disjunction faces [formula])
include hinner

/-- Operands that are read as formulas are formulas. -/
theorem operands_sound {parts : List (List Token)} {trace : List Mention}
    {formulas : List Formula} (hread : operands inner stop parts = ⟨trace, .ok formulas⟩) :
    trace = Formula.mentionsOfAll formulas ∧
      List.Forall₂ (fun part formula => grammar.Derives .disjunction part [formula])
        (parts.map (List.map Token.face)) formulas := by
  induction parts generalizing trace formulas with
  | nil =>
      cases hread
      exact ⟨rfl, .nil⟩
  | cons part parts ih =>
      rcases Recorded.bind_eq_ok_iff.mp hread with ⟨early, first, late, hfirst, hrest, rfl⟩
      rcases Recorded.bind_eq_ok_iff.mp hrest with ⟨middle, others, last, hothers, hresult, rfl⟩
      cases hresult
      rcases whole_sound (hinner _) hfirst with ⟨rfl, hderives⟩
      rcases ih hothers with ⟨rfl, hall⟩
      exact ⟨by rw [Formula.mentionsOfAll, List.append_nil], .cons hderives hall⟩

omit hinner in
/-- Arguments that are formulas are a series of operands. -/
theorem derives_of_arguments {parts : List (List Face)} {faces : List Face}
    {formulas : List Formula} (harguments : ArgumentList parts faces) (hne : parts ≠ [])
    (hparts : List.Forall₂ (fun part formula => grammar.Derives .disjunction part [formula])
      parts formulas) : grammar.Derives (.series .comma) faces formulas := by
  induction harguments generalizing formulas with
  | none => exact absurd rfl hne
  | last =>
      cases hparts with
      | cons hpart hnil =>
          cases hnil
          exact .last hpart
  | more _ _ hcomma _ ih =>
      cases hparts with
      | cons hpart hrest => exact .more hpart hcomma (ih (List.cons_ne_nil _ _) hrest)

/-- A call of a function is an application or a count. -/
theorem builtinCall_sound {game : Game} {opening : Text.Span} {builtin : Builtin}
    {parts : List (List Token)} {trace : List Mention} {formula : Formula}
    (hread : builtinCall game inner stop opening builtin parts = ⟨trace, .ok formula⟩) :
    trace = formula.mentions ∧
      (Applies game builtin (parts.map (List.map Token.face)) formula ∨
        builtin = .atLeast ∧ ∃ number count first others operands,
          parts = [number] :: first :: others ∧ number.kind = .number count ∧
            formula = .atLeast count operands ∧
              List.Forall₂ (fun part formula => grammar.Derives .disjunction part [formula])
                ((first :: others).map (List.map Token.face)) operands) := by
  unfold builtinCall at hread
  split at hread
  · rcases Recorded.bind_eq_ok_iff.mp hread with ⟨early, name, late, hname, hlast, rfl⟩
    rcases identifier_eq_ok hname with ⟨rfl, token, rfl, hkind⟩
    rcases mention_eq_ok hlast with ⟨rfl, rfl⟩
    exact ⟨by simp [Formula.mentions], .inl (.has hkind)⟩
  · rcases itemCount_sound hread with ⟨htrace, happlies⟩
    exact ⟨htrace, .inl happlies⟩
  · rcases Recorded.bind_eq_ok_iff.mp hread with ⟨early, name, late, hname, hlast, rfl⟩
    rcases identifier_eq_ok hname with ⟨rfl, token, rfl, hkind⟩
    rcases mention_eq_ok hlast with ⟨rfl, rfl⟩
    exact ⟨by simp [Formula.mentions], .inl (.event hkind)⟩
  · rcases Recorded.bind_eq_ok_iff.mp hread with ⟨early, name, late, hname, hlast, rfl⟩
    rcases identifier_eq_ok hname with ⟨rfl, token, rfl, hkind⟩
    rcases mention_eq_ok hlast with ⟨rfl, rfl⟩
    exact ⟨by simp [Formula.mentions], .inl (.setting hkind)⟩
  · rcases Recorded.bind_eq_ok_iff.mp hread with ⟨early, name, late, hname, hrest, rfl⟩
    rcases Recorded.bind_eq_ok_iff.mp hrest with ⟨middle, value, last, hvalue, hlast, rfl⟩
    rcases identifier_eq_ok hname with ⟨rfl, token, rfl, hkind⟩
    rcases settingValue_eq_ok hvalue with ⟨rfl, wanted, rfl, rfl⟩
    rcases mention_eq_ok hlast with ⟨rfl, rfl⟩
    exact ⟨by simp [Formula.mentions], .inl (.settingValue hkind)⟩
  · rcases Recorded.bind_eq_ok_iff.mp hread with ⟨early, count, late, hcount, hrest, rfl⟩
    rcases Recorded.bind_eq_ok_iff.mp hrest with ⟨middle, formulas, last, hformulas, hlast, rfl⟩
    cases hlast
    rcases number_eq_ok hcount with ⟨rfl, number, rfl, hkind⟩
    rcases operands_sound hinner hformulas with ⟨rfl, hall⟩
    exact ⟨by simp [Formula.mentions],
      .inr ⟨rfl, number, count, _, _, formulas, rfl, hkind, rfl, hall⟩⟩
  · cases hread

/-! ## Operands -/

/-- What a call with given arguments is read as. -/
def called (dialect : Dialect) (inner : Nat → Reader Formula) (stop : Nat) (head : Token)
    (name : String) (opening : Token) (parts : List (List Token)) : Parse Formula :=
  match dialect.macros.find? name with
  | some entry => dialect.expand entry head parts
  | none =>
      match Builtin.ofName? name with
      | some builtin => builtinCall dialect.game inner stop opening.span builtin parts
      | none => .fail (.unknownFunction name)

variable (hdescribes : grammar.Describes dialect)
include hdescribes

omit hinner in
theorem word_sound {head : Token} {name : String} (hhead : head.kind = .ident name)
    {trace : List Mention} {formula : Formula}
    (hread : word dialect head name = ⟨trace, .ok formula⟩) :
    trace = formula.mentions ∧ grammar.Derives .primary [head.face] [formula] := by
  unfold word at hread
  split at hread
  case isTrue htrue =>
    cases hread
    refine ⟨rfl, .constant ?_⟩
    rw [Token.kind_face, hhead, htrue]
    rfl
  case isFalse htrue =>
    split at hread
    case isTrue hfalse =>
      cases hread
      refine ⟨rfl, .constant ?_⟩
      rw [Token.kind_face, hhead, hfalse]
      rfl
    case isFalse hfalse =>
      have hname : ∀ value, name ≠ constantName value := by
        intro value
        cases value with
        | true => exact htrue
        | false => exact hfalse
      rw [hdescribes.macros] at hread
      split at hread
      case h_1 entry hfind =>
        split at hread
        case isTrue hparams =>
          rcases (hdescribes.expand hfind).mp hread with ⟨rfl, hexpands⟩
          exact ⟨rfl, .macroName hhead hname hfind (List.isEmpty_iff.mp hparams) hexpands⟩
        case isFalse => cases hread
      case h_2 hfind =>
        rw [hdescribes.game] at hread
        rcases mention_eq_ok hread with ⟨rfl, rfl⟩
        exact ⟨rfl, .item hhead hname hfind⟩

omit hdescribes hinner in
theorem call_eq (head : Token) (name : String) (opening : Token) (tokens : List Token) :
    call dialect inner stop head name opening tokens = (do
      let (parts, rest) ← arguments stop tokens
      let formula ← called dialect inner stop head name opening parts
      pure (formula, rest)) := by
  unfold call called
  cases dialect.macros.find? name with
  | some entry => rfl
  | none => cases Builtin.ofName? name <;> rfl

theorem called_sound {head opening : Token} {name : String} (hhead : head.kind = .ident name)
    (hopening : opening.kind = .lparen) {parts : List (List Token)} {faces : List Face}
    (harguments : ArgumentList (parts.map (List.map Token.face)) faces) {closing : Face}
    (hclosing : closing.kind = .rparen) {trace : List Mention} {formula : Formula}
    (hread : called dialect inner stop head name opening parts = ⟨trace, .ok formula⟩) :
    trace = formula.mentions ∧ grammar.Derives .primary
      (head.face :: opening.face :: faces ++ [closing]) [formula] := by
  unfold called at hread
  rw [hdescribes.macros, hdescribes.game] at hread
  split at hread
  case h_1 entry hfind =>
    rcases (hdescribes.expand hfind).mp hread with ⟨rfl, hexpands⟩
    exact ⟨rfl, .macroCall hhead hfind hopening harguments hclosing hexpands⟩
  case h_2 hfind =>
    split at hread
    case h_1 builtin hbuiltin =>
      obtain rfl : builtin.name = name := by simpa using List.find?_some hbuiltin
      rcases builtinCall_sound hinner hread with ⟨rfl, hcases⟩
      rcases hcases with happlies |
        ⟨rfl, number, count, first, others, operands, rfl, hnumber, rfl, hall⟩
      · exact ⟨rfl, .apply hhead hfind hopening harguments hclosing happlies⟩
      · rw [List.map_cons, List.map_cons] at harguments
        cases harguments with
        | more _ _ hcomma hrest =>
            exact ⟨rfl, .atLeast hhead hfind hopening hnumber hcomma
              (derives_of_arguments hrest (List.cons_ne_nil _ _) hall) hclosing⟩
    case h_2 => cases hread

theorem call_sound {head opening : Token} {name : String} (hhead : head.kind = .ident name)
    (hopening : opening.kind = .lparen) {tokens rest : List Token} {trace : List Mention}
    {formula : Formula}
    (hread : call dialect inner stop head name opening tokens = ⟨trace, .ok (formula, rest)⟩) :
    trace = formula.mentions ∧ ∃ used, head :: opening :: tokens = used ++ rest ∧
      grammar.Derives .primary (used.map Token.face) [formula] := by
  rw [call_eq] at hread
  rcases Recorded.bind_eq_ok_iff.mp hread with ⟨early, ⟨parts, behind⟩, late, hparts, hrest, rfl⟩
  rcases Recorded.bind_eq_ok_iff.mp hrest with ⟨middle, made, last, hmade, hresult, rfl⟩
  cases hresult
  rcases arguments_sound hparts with ⟨rfl, used, closing, hclosing, rfl, harguments⟩
  obtain ⟨rfl, hderives⟩ := called_sound hinner hdescribes hhead hopening harguments
    (show closing.face.kind = .rparen from hclosing) hmade
  refine ⟨by rw [List.nil_append, List.append_nil], head :: opening :: used ++ [closing],
    by simp, ?_⟩
  simpa using hderives

theorem operand_sound (stop : Nat) :
    (operand dialect inner stop).Follows fun faces formula =>
      grammar.Derives .primary faces [formula] := by
  intro tokens trace formula rest hread
  cases tokens with
  | nil => cases hread
  | cons token tokens =>
      cases hkind : token.kind with
      | lparen =>
          simp only [operand, hkind] at hread
          rcases Recorded.bind_eq_ok_iff.mp hread with
            ⟨early, ⟨made, behind⟩, late, hmade, hclosing, rfl⟩
          rcases hinner _ _ _ _ _ hmade with ⟨rfl, used, rfl, hderives⟩
          cases behind with
          | nil => cases hclosing
          | cons last behind =>
              simp only [closing] at hclosing
              split at hclosing
              case isTrue hrparen =>
                cases hclosing
                refine ⟨List.append_nil _, token :: used ++ [last], by simp, ?_⟩
                have hgroup : grammar.Derives .primary
                    (token.face :: used.map Token.face ++ [last.face]) [formula] :=
                  .group hkind hderives hrparen
                simpa using hgroup
              case isFalse => cases hclosing
      | ident name =>
          cases tokens with
          | nil =>
              simp only [operand, hkind] at hread
              rcases Recorded.bind_eq_ok_iff.mp hread with ⟨early, made, late, hmade, hresult, rfl⟩
              cases hresult
              rcases word_sound hdescribes hkind hmade with ⟨rfl, hderives⟩
              exact ⟨List.append_nil _, [token], rfl, hderives⟩
          | cons opening tokens =>
              simp only [operand, hkind] at hread
              split at hread
              case isTrue hopening => exact call_sound hinner hdescribes hkind hopening hread
              case isFalse =>
                rcases Recorded.bind_eq_ok_iff.mp hread with
                  ⟨early, made, late, hmade, hresult, rfl⟩
                cases hresult
                rcases word_sound hdescribes hkind hmade with ⟨rfl, hderives⟩
                exact ⟨List.append_nil _, [token], rfl, hderives⟩
      | _ =>
          simp only [operand, hkind] at hread
          cases hread

end Inner

/-! ## Formulas -/

variable (hdescribes : grammar.Describes dialect)
include hdescribes

/-- A conjunction is derived when what is inside of its operands is. -/
theorem conjunction_sound {inner : Nat → Reader Formula}
    (hinner : ∀ stop, (inner stop).Follows fun faces formula =>
      grammar.Derives .disjunction faces [formula]) (stop : Nat) :
    (series .and .all stop (negated (operand dialect inner stop))).Follows fun faces formula =>
      grammar.Derives .conjunction faces [formula] :=
  series_sound .and (negated_sound (operand_sound hinner hdescribes stop))
    (fun terms => by rw [Formula.mentions]) Grammar.Derives.conjunction

theorem disjunction_sound (depth stop : Nat) :
    (disjunction dialect depth stop).Follows fun faces formula =>
      grammar.Derives .disjunction faces [formula] := by
  induction depth generalizing stop with
  | zero =>
      intro tokens trace formula rest hread
      cases hread
  | succ depth ih =>
      exact series_sound .or (conjunction_sound hdescribes ih stop)
        (fun terms => by rw [Formula.mentions]) Grammar.Derives.disjunction

/-- Tokens that are read as a formula are derived, and its names are written down. -/
theorem formula_sound {tokens : List Token} {trace : List Mention} {made : Formula}
    (hread : formula dialect stop tokens = ⟨trace, .ok made⟩) :
    trace = made.mentions ∧ grammar.Derives .disjunction (tokens.map Token.face) [made] :=
  whole_sound (disjunction_sound hdescribes (tokens.length + 1) stop) hread

end Reader

end SeedLogic
