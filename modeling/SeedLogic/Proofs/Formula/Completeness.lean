import SeedLogic.Proofs.Formula.Readings

/-!
# Readers miss nothing

Whatever the grammar derives is read (`completes`), by induction on the derivation.
Together with soundness this says which tokens are read as a formula, and as which one
(`formula_eq_ok_iff`).
-/

namespace SeedLogic

namespace Reader

variable {grammar : Grammar} {dialect : Dialect}

/-! ## Words -/

theorem word_constant (head : Token) (value : Bool) :
    word dialect head (constantName value) =
      ⟨(Formula.const value).mentions, .ok (.const value)⟩ := by
  cases value <;> rfl

theorem word_item (hdescribes : grammar.Describes dialect) {name : String}
    (hname : ∀ value, name ≠ constantName value) (hfind : grammar.macros.find? name = none)
    (head : Token) :
    word dialect head name =
      ⟨(Formula.item (grammar.game.symbolName name) 1).mentions,
        .ok (.item (grammar.game.symbolName name) 1)⟩ := by
  have htrue : name ≠ "true" := hname true
  have hfalse : name ≠ "false" := hname false
  unfold word
  rw [if_neg htrue, if_neg hfalse, hdescribes.macros, hfind, hdescribes.game]
  rfl

theorem word_macro (hdescribes : grammar.Describes dialect) {name : String}
    (hname : ∀ value, name ≠ constantName value) {entry : Macro}
    (hfind : grammar.macros.find? name = some entry) (hparams : entry.params = [])
    {formula : Formula} (hexpands : grammar.expands entry [] formula) (head : Token) :
    word dialect head name = ⟨formula.mentions, .ok formula⟩ := by
  have htrue : name ≠ "true" := hname true
  have hfalse : name ≠ "false" := hname false
  unfold word
  rw [if_neg htrue, if_neg hfalse, hdescribes.macros, hfind]
  simp only [hparams, List.isEmpty_nil, if_true]
  exact (hdescribes.expand hfind).mpr ⟨rfl, hexpands⟩

/-! ## Calls -/

/-- Arguments of which the first has one face begin with a token. -/
theorem exists_token_of_map_eq {parts : List (List Token)} {face : Face}
    {others : List (List Face)}
    (hparts : parts.map (List.map Token.face) = [face] :: others) :
    ∃ token behind, parts = [token] :: behind ∧ token.kind = face.kind ∧
      token.text = face.text ∧ behind.map (List.map Token.face) = others := by
  rcases List.map_eq_cons_iff.mp hparts with ⟨part, behind, rfl, hpart, hbehind⟩
  rcases List.map_eq_singleton_iff.mp hpart with ⟨token, rfl, rfl⟩
  exact ⟨token, behind, rfl, rfl, rfl, hbehind⟩

theorem identifier_of_kind {token : Token} {name : String} (hkind : token.kind = .ident name)
    (stop : Nat) : identifier stop [token] = pure name := by
  rcases token with ⟨kind, offset, text⟩
  cases hkind
  rfl

theorem number_of_kind {token : Token} {value : Nat} (hkind : token.kind = .number value)
    (stop : Nat) : number stop [token] = pure value := by
  rcases token with ⟨kind, offset, text⟩
  cases hkind
  rfl

/-- Applications are read, wherever their tokens are. -/
theorem builtinCall_complete {game : Game} {inner : Nat → Reader Formula} {builtin : Builtin}
    {arguments : List (List Face)} {formula : Formula}
    (happlies : Applies game builtin arguments formula) {parts : List (List Token)}
    (hparts : parts.map (List.map Token.face) = arguments) (stop : Nat) (opening : Text.Span) :
    builtinCall game inner stop opening builtin parts = ⟨formula.mentions, .ok formula⟩ := by
  cases happlies with
  | has hitem =>
      rcases exists_token_of_map_eq hparts with ⟨token, others, rfl, hkind, -, hothers⟩
      rw [List.map_eq_nil_iff.mp hothers]
      simp only [builtinCall, identifier_of_kind (hkind.trans hitem), pure_bind]
      rfl
  | hasMany hitem hnumber hpositive =>
      rcases exists_token_of_map_eq hparts with ⟨token, others, rfl, hkind, -, hothers⟩
      rcases exists_token_of_map_eq hothers with ⟨digits, nothing, rfl, hvalue, -, hnothing⟩
      rw [List.map_eq_nil_iff.mp hnothing]
      simp only [builtinCall, itemCount, identifier_of_kind (hkind.trans hitem),
        number_of_kind (hvalue.trans hnumber), pure_bind, if_neg (Nat.ne_of_gt hpositive)]
      rfl
  | event hevent =>
      rcases exists_token_of_map_eq hparts with ⟨token, others, rfl, hkind, -, hothers⟩
      rw [List.map_eq_nil_iff.mp hothers]
      simp only [builtinCall, identifier_of_kind (hkind.trans hevent), pure_bind]
      rfl
  | setting hsetting =>
      rcases exists_token_of_map_eq hparts with ⟨token, others, rfl, hkind, -, hothers⟩
      rw [List.map_eq_nil_iff.mp hothers]
      simp only [builtinCall, identifier_of_kind (hkind.trans hsetting), pure_bind]
      rfl
  | settingValue hsetting =>
      rcases exists_token_of_map_eq hparts with ⟨token, others, rfl, hkind, -, hothers⟩
      rcases exists_token_of_map_eq hothers with ⟨value, nothing, rfl, -, htext, hnothing⟩
      rw [List.map_eq_nil_iff.mp hnothing]
      simp only [builtinCall, identifier_of_kind (hkind.trans hsetting), settingValue, pure_bind,
        htext]
      rfl

/-- An argument is no longer than what is between the parentheses. -/
theorem length_le_of_mem_arguments {parts : List (List Face)} {faces part : List Face}
    (harguments : ArgumentList parts faces) (hmem : part ∈ parts) :
    part.length ≤ faces.length := by
  induction harguments with
  | none => cases hmem
  | last =>
      rw [List.mem_singleton] at hmem
      exact Nat.le_of_eq (congrArg List.length hmem)
  | more _ _ _ _ ih =>
      rw [List.length_append, List.length_cons]
      rcases List.mem_cons.mp hmem with rfl | hlater
      · omega
      · have hle := ih hlater
        omega

/-- A formula that fills an argument is the whole argument. -/
theorem whole_complete {faces : List Face} {formula : Formula}
    (hfaces : Reads dialect .disjunction faces formula) {part : List Token}
    (hpart : part.map Token.face = faces) {depth : Nat} (hdepth : faces.length < depth)
    (stop : Nat) :
    whole (disjunction dialect depth stop) part = ⟨formula.mentions, .ok formula⟩ := by
  rcases Nat.exists_eq_add_of_lt hdepth with ⟨inner, rfl⟩
  have hlength : part.length ≤ faces.length + inner := by
    rw [← hpart, List.length_map]
    omega
  have hends : Ends .disjunction [] := trivial
  have hread := hfaces stop hpart hlength hends
  rw [List.append_nil] at hread
  exact Recorded.bind_eq_ok_of_pure hread rfl

theorem operands_complete {arguments : List (List Face)} {formulas : List Formula}
    (hreads : List.Forall₂ (Reads dialect .disjunction) arguments formulas) {depth : Nat}
    (hdepth : ∀ part ∈ arguments, part.length < depth) {parts : List (List Token)}
    (hparts : parts.map (List.map Token.face) = arguments) (stop : Nat) :
    operands (disjunction dialect depth) stop parts =
      ⟨Formula.mentionsOfAll formulas, .ok formulas⟩ := by
  induction hreads generalizing parts with
  | nil =>
      rw [List.map_eq_nil_iff.mp hparts]
      rfl
  | cons hread _ ih =>
      rcases List.map_eq_cons_iff.mp hparts with ⟨part, others, rfl, hpart, hothers⟩
      rw [List.forall_mem_cons] at hdepth
      have hfirst := whole_complete hread hpart hdepth.1 (argumentStop stop part)
      refine Recorded.bind_eq_ok_iff.mpr ⟨_, _, _, hfirst, ?_, rfl⟩
      have hrest := ih hdepth.2 hothers
      exact Recorded.bind_eq_ok_of_pure hrest rfl

theorem called_apply (hdescribes : grammar.Describes dialect) {builtin : Builtin}
    (hfind : grammar.macros.find? builtin.name = none) (inner : Nat → Reader Formula)
    (stop : Nat) (head opening : Token) (parts : List (List Token)) :
    called dialect inner stop head builtin.name opening parts =
      builtinCall grammar.game inner stop opening.span builtin parts := by
  have hbuiltin : Builtin.ofName? builtin.name = some builtin := by
    cases builtin <;> rfl
  unfold called
  rw [hdescribes.macros, hfind, hbuiltin, hdescribes.game]

theorem called_macro (hdescribes : grammar.Describes dialect) {name : String} {entry : Macro}
    (hfind : grammar.macros.find? name = some entry) {arguments : List (List Face)}
    {formula : Formula} (hexpands : grammar.expands entry arguments formula)
    {parts : List (List Token)} (hparts : parts.map (List.map Token.face) = arguments)
    (inner : Nat → Reader Formula) (stop : Nat) (head opening : Token) :
    called dialect inner stop head name opening parts = ⟨formula.mentions, .ok formula⟩ := by
  unfold called
  rw [hdescribes.macros, hfind]
  apply (hdescribes.expand hfind).mpr
  rw [hparts]
  exact ⟨rfl, hexpands⟩

/-- A count of operands is read. -/
theorem reads_atLeast (hdescribes : grammar.Describes dialect)
    {head opening number comma closing : Face} {count : Nat} {faces : List Face}
    {formulas : List Formula} (hhead : head.kind = .ident (Builtin.name .atLeast))
    (hfind : grammar.macros.find? (Builtin.name .atLeast) = none)
    (hopening : opening.kind = .lparen) (hnumber : number.kind = .number count)
    (hcomma : comma.kind = .comma) (hoperands : ReadsOperands dialect faces formulas)
    (hclosing : closing.kind = .rparen) :
    Reads dialect .primary (head :: opening :: number :: comma :: faces ++ [closing])
      (.atLeast count formulas) := by
  rcases hoperands with ⟨first, others, harguments, hreads⟩
  have hpart : isArgument 0 [number] = true := by simp [isArgument, hnumber]
  have hall : ArgumentList ([number] :: first :: others) ([number] ++ comma :: faces) :=
    .more (List.cons_ne_nil _ _) hpart hcomma harguments
  apply reads_call hhead hopening hall hclosing
  intro parts depth stop head opening hparts hdepth
  rcases exists_token_of_map_eq hparts with ⟨token, behind, rfl, hkind, -, hbehind⟩
  rcases List.map_eq_cons_iff.mp hbehind with ⟨part, rest, rfl, -, -⟩
  have hlength : ∀ part ∈ first :: others, part.length < depth := by
    intro part hmem
    have hle := length_le_of_mem_arguments harguments hmem
    simp only [List.length_append, List.length_cons] at hdepth
    omega
  have hread := operands_complete hreads hlength hbehind stop
  rw [called_apply hdescribes hfind]
  simp only [builtinCall, number_of_kind (hkind.trans hnumber), pure_bind]
  rw [Formula.mentions]
  exact Recorded.bind_eq_ok_of_pure hread rfl

/-! ## Derivations -/

theorem readsOperands_last {faces : List Face} {formula : Formula}
    (hderives : grammar.Derives .disjunction faces [formula])
    (hread : Reads dialect .disjunction faces formula) :
    ReadsOperands dialect faces [formula] :=
  ⟨faces, [], .last hderives.ne_nil hderives.isArgument, .cons hread .nil⟩

theorem readsOperands_more {mark : Face} {left right : List Face} {formula : Formula}
    {formulas : List Formula} (hderives : grammar.Derives .disjunction left [formula])
    (hread : Reads dialect .disjunction left formula) (hmark : mark.kind = .comma)
    (hoperands : ReadsOperands dialect right formulas) :
    ReadsOperands dialect (left ++ mark :: right) (formula :: formulas) := by
  rcases hoperands with ⟨first, others, harguments, hreads⟩
  exact ⟨left, first :: others, .more hderives.ne_nil hderives.isArgument hmark harguments,
    .cons hread hreads⟩

/-- An operand without `!` does not begin with one. -/
theorem exists_head_of_primary {faces : List Face} {formulas : List Formula}
    (hderives : grammar.Derives .primary faces formulas) :
    ∃ face others, faces = face :: others ∧ face.kind ≠ .not := by
  cases hderives with
  | group hopening => exact ⟨_, _, rfl, by simp [hopening]⟩
  | constant hword => exact ⟨_, _, rfl, by simp [hword]⟩
  | item hword => exact ⟨_, _, rfl, by simp [hword]⟩
  | apply hhead => exact ⟨_, _, rfl, by simp [hhead]⟩
  | atLeast hhead => exact ⟨_, _, rfl, by simp [hhead]⟩
  | macroName hword => exact ⟨_, _, rfl, by simp [hword]⟩
  | macroCall hhead => exact ⟨_, _, rfl, by simp [hhead]⟩

/-- Whatever is derived is read. -/
theorem completes (hdescribes : grammar.Describes dialect) {category : Category}
    {faces : List Face} {formulas : List Formula}
    (hderives : grammar.Derives category faces formulas) :
    Completes dialect category faces formulas := by
  induction hderives with
  | @last separator faces term hterm ih =>
      have hread := reads_of_completes ih
      cases separator with
      | comma => exact readsOperands_last hterm hread
      | or => exact readsSeries_last Separator.noConfusion hread hterm.ne_nil
      | and => exact readsSeries_last Separator.noConfusion hread hterm.ne_nil
  | @more separator mark left right term terms hterm hmark _ ihterm ihterms =>
      have hread := reads_of_completes ihterm
      cases separator with
      | comma => exact readsOperands_more hterm hread hmark ihterms
      | or => exact readsSeries_more Separator.noConfusion hread hmark ihterms
      | and => exact readsSeries_more Separator.noConfusion hread hmark ihterms
  | disjunction _ ih =>
      refine ⟨_, rfl, ?_⟩
      intro used rest depth stop hused hdepth hends
      exact series_of_readsSeries (fun terms => by rw [Formula.mentions]) ih stop hused hdepth
        (hends.mono (List.Subset.refl _))
  | conjunction _ ih =>
      refine ⟨_, rfl, ?_⟩
      intro used rest depth stop hused hdepth hends
      exact series_of_readsSeries (fun terms => by rw [Formula.mentions]) ih stop hused hdepth
        (hends.mono (List.Subset.refl _))
  | negation hmark _ ih =>
      rcases ih with ⟨formula, hformula, hread⟩
      cases hformula
      exact ⟨_, rfl, reads_negation hmark hread⟩
  | plain hprimary ih =>
      rcases ih with ⟨formula, hformula, hread⟩
      rcases exists_head_of_primary hprimary with ⟨face, others, rfl, hface⟩
      exact ⟨formula, hformula, reads_plain hface hread⟩
  | group hopening _ hclosing ih =>
      rcases ih with ⟨formula, hformula, hread⟩
      exact ⟨formula, hformula, reads_group hopening hread hclosing⟩
  | constant hword =>
      exact ⟨_, rfl, reads_word hword fun _ => word_constant _ _⟩
  | item hword hname hfind =>
      exact ⟨_, rfl, reads_word hword fun _ => word_item hdescribes hname hfind _⟩
  | apply hhead hfind hopening harguments hclosing happlies =>
      refine ⟨_, rfl, reads_call hhead hopening harguments hclosing ?_⟩
      intro parts depth stop head opening hparts _
      rw [called_apply hdescribes hfind]
      exact builtinCall_complete happlies hparts stop opening.span
  | atLeast hhead hfind hopening hnumber hcomma _ hclosing ih =>
      exact ⟨_, rfl,
        reads_atLeast hdescribes hhead hfind hopening hnumber hcomma ih hclosing⟩
  | macroName hword hname hfind hparams hexpands =>
      exact ⟨_, rfl,
        reads_word hword fun _ => word_macro hdescribes hname hfind hparams hexpands _⟩
  | macroCall hhead hfind hopening harguments hclosing hexpands =>
      refine ⟨_, rfl, reads_call hhead hopening harguments hclosing ?_⟩
      intro parts depth stop head opening hparts _
      exact called_macro hdescribes hfind hexpands hparts _ stop head opening

/-! ## Formulas -/

/-- Derived tokens are read, wherever they are. -/
theorem formula_complete (hdescribes : grammar.Describes dialect) {tokens : List Token}
    {made : Formula} (hderives : grammar.Derives .disjunction (tokens.map Token.face) [made])
    (stop : Nat) : formula dialect stop tokens = ⟨made.mentions, .ok made⟩ := by
  rcases completes hdescribes hderives with ⟨other, hother, hread⟩
  cases hother
  exact whole_complete hread rfl (by rw [List.length_map]; exact Nat.lt_succ_self _) stop

/-- The tokens that are read as a formula are those that the grammar derives. -/
theorem formula_eq_ok_iff (hdescribes : grammar.Describes dialect) {stop : Nat}
    {tokens : List Token} {trace : List Mention} {made : Formula} :
    formula dialect stop tokens = ⟨trace, .ok made⟩ ↔
      trace = made.mentions ∧ grammar.Derives .disjunction (tokens.map Token.face) [made] := by
  constructor
  · exact formula_sound hdescribes
  · rintro ⟨rfl, hderives⟩
    exact formula_complete hdescribes hderives stop

end Reader

end SeedLogic
