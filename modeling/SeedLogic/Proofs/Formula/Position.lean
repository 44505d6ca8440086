import SeedLogic.Proofs.Formula.Unfolding

/-!
# Places of operands

`Around` is a derivation with an empty place, under any nesting of parentheses, `!`, `&`,
`|` and the operands of counts.  Whatever has the value of that place can be put there
(`Around.fill`): the body of a macro, in parentheses, instead of a call of it
(`derives_unfolded`).
-/

namespace SeedLogic

namespace Grammar

/-- What stands left and right of the place of an operand, and the formulas of the whole
when the operand is `value`. -/
inductive Around (grammar : Grammar) (value : Formula) :
    Category → List Face → List Face → List Formula → Prop where
  | here : Around grammar value .primary [] [] [value]
  | group {opening closing : Face} {left right : List Face} {formula : Formula} :
      opening.kind = .lparen → Around grammar value .disjunction left right [formula] →
      closing.kind = .rparen →
      Around grammar value .primary (opening :: left) (right ++ [closing]) [formula]
  | atLeast {head opening number comma closing : Face} {count : Nat} {left right : List Face}
      {operands : List Formula} :
      head.kind = .ident (Reader.Builtin.name .atLeast) →
      grammar.macros.find? (Reader.Builtin.name .atLeast) = none →
      opening.kind = .lparen → number.kind = .number count → comma.kind = .comma →
      Around grammar value (.series .comma) left right operands → closing.kind = .rparen →
      Around grammar value .primary (head :: opening :: number :: comma :: left)
        (right ++ [closing]) [.atLeast count operands]
  | plain {left right : List Face} {operand : Formula} :
      Around grammar value .primary left right [operand] →
      Around grammar value .unary left right [operand]
  | negation {mark : Face} {left right : List Face} {operand : Formula} :
      mark.kind = .not → Around grammar value .unary left right [operand] →
      Around grammar value .unary (mark :: left) right [.not operand]
  | conjunction {left right : List Face} {terms : List Formula} :
      Around grammar value (.series .and) left right terms →
      Around grammar value .conjunction left right [Reader.joined .all terms]
  | disjunction {left right : List Face} {terms : List Formula} :
      Around grammar value (.series .or) left right terms →
      Around grammar value .disjunction left right [Reader.joined .any terms]
  | last {separator : Separator} {left right : List Face} {term : Formula} :
      Around grammar value separator.term left right [term] →
      Around grammar value (.series separator) left right [term]
  | first {separator : Separator} {mark : Face} {left right faces : List Face}
      {term : Formula} {terms : List Formula} :
      Around grammar value separator.term left right [term] → mark.kind = separator.kind →
      Derives grammar (.series separator) faces terms →
      Around grammar value (.series separator) left (right ++ mark :: faces) (term :: terms)
  | later {separator : Separator} {mark : Face} {left right faces : List Face}
      {term : Formula} {terms : List Formula} :
      Derives grammar separator.term faces [term] → mark.kind = separator.kind →
      Around grammar value (.series separator) left right terms →
      Around grammar value (.series separator) (faces ++ mark :: left) right (term :: terms)

variable {grammar : Grammar} {value : Formula}

/-- An operand of the right value fills the place. -/
theorem Around.fill {category : Category} {left right : List Face} {formulas : List Formula}
    (haround : grammar.Around value category left right formulas) {operand : List Face}
    (hoperand : grammar.Derives .primary operand [value]) :
    grammar.Derives category (left ++ operand ++ right) formulas := by
  induction haround with
  | here => rwa [List.nil_append, List.append_nil]
  | group hopening _ hclosing ih =>
      have hgroup := Derives.group hopening ih hclosing
      simpa only [List.cons_append, List.append_assoc] using hgroup
  | atLeast hhead hfind hopening hnumber hcomma _ hclosing ih =>
      have hcount := Derives.atLeast hhead hfind hopening hnumber hcomma ih hclosing
      simpa only [List.cons_append, List.append_assoc] using hcount
  | plain _ ih => exact .plain ih
  | negation hmark _ ih => exact .negation hmark ih
  | conjunction _ ih => exact .conjunction ih
  | disjunction _ ih => exact .disjunction ih
  | last _ ih => exact .last ih
  | first _ hmark hterms ih =>
      have hseries := Derives.more ih hmark hterms
      rwa [List.append_assoc] at hseries
  | later hterm hmark _ ih =>
      have hseries := Derives.more hterm hmark ih
      simpa only [List.cons_append, List.append_assoc] using hseries

/-- An operand, with what stands left and right of it in a formula. -/
def OperandIn (grammar : Grammar) (left operand right : List Face) : Prop :=
  ∃ value formula, grammar.Derives .primary operand [value] ∧
    grammar.Around value .disjunction left right [formula]

end Grammar

/-! ## Calls of macros -/

/-- Tokens that call a macro: its name alone, or with arguments in parentheses. -/
inductive Macro.Called (macros : MacroTable) : Macro → List (List Token) → List Token → Prop where
  | name {head : Token} {name : String} {entry : Macro} :
      head.kind = .ident name → (∀ value, name ≠ constantName value) →
      macros.find? name = some entry → entry.params = [] → Called macros entry [] [head]
  | arguments {head opening : Token} {name : String} {entry : Macro}
      {arguments : List (List Token)} {behind : List Token} :
      head.kind = .ident name → macros.find? name = some entry → opening.kind = .lparen →
      Reader.arguments 0 behind = pure (arguments, []) →
      Called macros entry arguments (head :: opening :: behind)

namespace Grammar

variable {grammar : Grammar} {entry : Macro} {arguments : List (List Token)} {call : List Token}
  {value : Formula}

/-- An operand that begins with the name of a macro is that name alone or a call of it. -/
theorem expands_of_derives {head : Face} {name : String} {rest : List Face}
    (hhead : head.kind = .ident name) (hfind : grammar.macros.find? name = some entry)
    (hderives : grammar.Derives .primary (head :: rest) [value]) :
    (rest = [] ∧ ((∃ truth, name = constantName truth) ∨ grammar.expands entry [] value)) ∨
      ∃ opening faces closing parts, rest = opening :: (faces ++ [closing]) ∧
        closing.kind = .rparen ∧ ArgumentList parts faces ∧
          grammar.expands entry parts value := by
  have hname : ∀ {other : String}, head.kind = .ident other → other = name := by
    intro other hother
    rw [hhead] at hother
    cases hother
    rfl
  generalize hfaces : head :: rest = faces at hderives
  cases hderives with
  | group hlparen =>
      rcases List.cons.inj hfaces with ⟨rfl, -⟩
      rw [hhead] at hlparen
      cases hlparen
  | constant hword =>
      rcases List.cons.inj hfaces with ⟨rfl, rfl⟩
      exact .inl ⟨rfl, .inl ⟨_, (hname hword).symm⟩⟩
  | item hword _ hnone =>
      rcases List.cons.inj hfaces with ⟨rfl, -⟩
      rw [hname hword, hfind] at hnone
      cases hnone
  | apply hword hnone =>
      rcases List.cons.inj hfaces with ⟨rfl, -⟩
      rw [hname hword, hfind] at hnone
      cases hnone
  | atLeast hword hnone =>
      rcases List.cons.inj hfaces with ⟨rfl, -⟩
      rw [hname hword, hfind] at hnone
      cases hnone
  | macroName hword _ hother _ hexpands =>
      rcases List.cons.inj hfaces with ⟨rfl, rfl⟩
      rw [hname hword, hfind] at hother
      cases hother
      exact .inl ⟨rfl, .inr hexpands⟩
  | macroCall hword hother _ hlist hclosing hexpands =>
      rcases List.cons.inj hfaces with ⟨rfl, rfl⟩
      rw [hname hword, hfind] at hother
      cases hother
      exact .inr ⟨_, _, _, _, rfl, hclosing, hlist, hexpands⟩

/-- A call of a macro that is derived has the value that the macro stands for. -/
theorem expands_of_called (hcalled : Macro.Called grammar.macros entry arguments call)
    (hderives : grammar.Derives .primary (call.map Token.face) [value]) :
    grammar.expands entry (arguments.map (List.map Token.face)) value := by
  cases hcalled with
  | name hhead hname hfind _ =>
      rcases expands_of_derives hhead hfind hderives with ⟨-, ⟨truth, htruth⟩ | hexpands⟩ | hcall
      · exact absurd htruth (hname truth)
      · exact hexpands
      · rcases hcall with ⟨opening, faces, closing, parts, hrest, -⟩
        cases hrest
  | arguments hhead hfind _ harguments =>
      rcases expands_of_derives hhead hfind hderives with ⟨hnil, -⟩ | hcall
      · cases hnil
      · rcases hcall with ⟨opening, faces, closing, parts, hrest, hclosing, hlist, hexpands⟩
        rcases Reader.exists_closing_of_map_eq (List.cons.inj hrest).2 hclosing with
          ⟨inner, token, rfl, hinner, hkind⟩
        rcases Reader.arguments_complete hlist hinner 0 hkind [] with ⟨found, hfound, hread⟩
        rw [hread] at harguments
        cases harguments
        rw [hfound]
        exact hexpands

/-- The body of a macro, with the arguments in the places of the parameters and in
parentheses, has the value of a call, wherever the call is an operand. -/
theorem derives_unfolded {game : Game} {macros : MacroTable} {depth : Nat}
    (hcalled : Macro.Called macros entry arguments call) {left right : List Face}
    (hplace : (ofMacros game macros depth).OperandIn left (call.map Token.face) right) :
    ∃ formula body, scan entry.body = .ok body ∧
      (ofMacros game macros depth).Derives .disjunction
        (left ++ call.map Token.face ++ right) [formula] ∧
      (ofMacros game macros depth).Derives .disjunction
        (left ++ (⟨.lparen, "("⟩ :: Face.substitute
          (entry.params.zip (arguments.map (List.map Token.face)))
          (body.map Token.face) ++ [⟨.rparen, ")"⟩]) ++ right) [formula] := by
  rcases hplace with ⟨value, formula, hderives, haround⟩
  have hexpands : Unfolds game macros depth entry (arguments.map (List.map Token.face)) value :=
    expands_of_called hcalled hderives
  rcases derives_of_unfolds hexpands with ⟨-, body, hbody, hunfolded⟩
  exact ⟨formula, body, hbody, haround.fill hderives,
    haround.fill (.group rfl hunfolded rfl)⟩

end Grammar

end SeedLogic
