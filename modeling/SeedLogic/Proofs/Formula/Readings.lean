import SeedLogic.Proofs.Formula.Soundness

/-!
# Readings

Faces are read as a formula when the reader takes tokens with these faces, whatever
follows them, as long as that could not go on with them (`Ends`).  There is one lemma
for each production.  A reader that is given as much depth as there are tokens never
runs out of it, since a parenthesis takes one.
-/

namespace SeedLogic

/-! ## Derivations between parentheses -/

/-- Derived faces open and close the same parentheses, and only a series of operands has
commas outside of them. -/
theorem Grammar.Derives.isArgument_append {grammar : Grammar} {category : Category}
    {faces : List Face} {formulas : List Formula}
    (hderives : grammar.Derives category faces formulas) (level : Nat) (rest : List Face)
    (hlevel : category = .series .comma → 0 < level) :
    isArgument level (faces ++ rest) = isArgument level rest := by
  induction hderives generalizing level rest with
  | @last separator _ _ _ ih =>
      apply ih
      intro hterm
      cases separator <;> cases hterm
  | @more separator mark left right _ _ _ hmark _ ihleft ihright =>
      have hleft : separator.term = .series .comma → 0 < level := by
        intro hterm
        cases separator <;> cases hterm
      rw [List.append_assoc, List.cons_append, ihleft _ _ hleft, ← ihright level rest hlevel]
      cases separator with
      | comma =>
          rcases Nat.exists_eq_add_of_lt (hlevel rfl) with ⟨inner, rfl⟩
          rw [Nat.zero_add]
          simp [isArgument, hmark, Separator.kind]
      | _ => simp [isArgument, hmark, Separator.kind]
  | disjunction _ ih => exact ih level rest fun hseries => by cases hseries
  | conjunction _ ih => exact ih level rest fun hseries => by cases hseries
  | negation hmark _ ih =>
      simp only [List.cons_append, isArgument, hmark]
      exact ih level rest fun hunary => by cases hunary
  | plain _ ih => exact ih level rest fun hprimary => by cases hprimary
  | @group opening closing faces _ hopening _ hclosing ih =>
      have hinner := ih (level + 1) (closing :: rest) fun hdisjunction => by cases hdisjunction
      simp only [List.cons_append, List.append_assoc, List.nil_append, isArgument, hopening,
        hinner, hclosing]
  | constant hword => simp [isArgument, hword]
  | item hword => simp [isArgument, hword]
  | @apply head opening closing _ _ faces _ hhead _ hopening harguments hclosing _ =>
      have hinner := harguments.isArgument_append level (closing :: rest)
      simp only [List.cons_append, List.append_assoc, List.nil_append, isArgument, hhead,
        hopening, hinner, hclosing]
  | @atLeast head opening number comma closing _ faces _ hhead _ hopening hnumber hcomma _
      hclosing ih =>
      have hinner := ih (level + 1) (closing :: rest) fun _ => Nat.succ_pos level
      simp only [List.cons_append, List.append_assoc, List.nil_append, isArgument, hhead,
        hopening, hnumber, hcomma, hinner, hclosing]
  | macroName hword => simp [isArgument, hword]
  | @macroCall head opening closing _ _ _ faces _ hhead _ hopening harguments hclosing _ =>
      have hinner := harguments.isArgument_append level (closing :: rest)
      simp only [List.cons_append, List.append_assoc, List.nil_append, isArgument, hhead,
        hopening, hinner, hclosing]

/-- A formula can be an argument. -/
theorem Grammar.Derives.isArgument {grammar : Grammar} {faces : List Face}
    {formulas : List Formula} (hderives : grammar.Derives .disjunction faces formulas) :
    SeedLogic.isArgument 0 faces = true := by
  have hall := hderives.isArgument_append 0 [] fun hseries => by cases hseries
  rwa [List.append_nil] at hall

namespace Reader

/-! ## Where readers stop -/

/-- The kinds of tokens with which a category would go on. -/
def continuations : Category → List TokenKind
  | .disjunction | .series .or => [.lparen, .and, .or]
  | .conjunction | .series .and => [.lparen, .and]
  | .unary | .primary => [.lparen]
  | .series .comma => [.lparen, .and, .or, .comma]

/-- The tokens do not go on with a category. -/
def Ends (category : Category) : List Token → Prop
  | [] => True
  | token :: _ => token.kind ∉ continuations category

theorem Ends.mono {category other : Category} {rest : List Token} (hends : Ends category rest)
    (hsubset : continuations other ⊆ continuations category) : Ends other rest := by
  cases rest with
  | nil => trivial
  | cons token rest => exact fun hmem => hends (hsubset hmem)

/-- The readers of the categories that are no series. -/
def termReader (dialect : Dialect) (depth stop : Nat) : Category → Reader Formula
  | .disjunction => disjunction dialect (depth + 1) stop
  | .conjunction =>
      series .and .all stop (negated (operand dialect (disjunction dialect depth) stop))
  | .unary => negated (operand dialect (disjunction dialect depth) stop)
  | .primary | .series _ => operand dialect (disjunction dialect depth) stop

/-- Faces are read as a formula, with enough depth and before tokens that do not go on
with them. -/
def Reads (dialect : Dialect) (category : Category) (faces : List Face) (formula : Formula) :
    Prop :=
  ∀ ⦃used rest : List Token⦄ ⦃depth : Nat⦄ (stop : Nat), used.map Token.face = faces →
    used.length ≤ depth → Ends category rest →
    termReader dialect depth stop category (used ++ rest) =
      ⟨formula.mentions, .ok (formula, rest)⟩

/-- Faces are read as a series of terms. -/
def ReadsSeries (dialect : Dialect) (separator : Separator) (faces : List Face)
    (terms : List Formula) : Prop :=
  ∀ ⦃used rest : List Token⦄ ⦃depth fuel : Nat⦄ (stop : Nat), used.map Token.face = faces →
    used.length ≤ depth → used.length ≤ fuel → Ends (.series separator) rest →
    chain separator.kind stop (termReader dialect depth stop separator.term) fuel
      (used ++ rest) = ⟨Formula.mentionsOfAll terms, .ok (terms, rest)⟩

/-- Faces are arguments that are read as formulas. -/
def ReadsOperands (dialect : Dialect) (faces : List Face) (formulas : List Formula) : Prop :=
  ∃ first parts, ArgumentList (first :: parts) faces ∧
    List.Forall₂ (Reads dialect .disjunction) (first :: parts) formulas

/-- What the reader of a category does with faces that are derived. -/
def Completes (dialect : Dialect) : Category → List Face → List Formula → Prop
  | .series .comma, faces, formulas => ReadsOperands dialect faces formulas
  | .series separator, faces, formulas => ReadsSeries dialect separator faces formulas
  | category, faces, formulas => ∃ formula, formulas = [formula] ∧
      Reads dialect category faces formula

/-! ## Series -/

variable {grammar : Grammar} {dialect : Dialect}

theorem reads_of_completes {separator : Separator} {faces : List Face} {formula : Formula}
    (hcompletes : Completes dialect separator.term faces [formula]) :
    Reads dialect separator.term faces formula := by
  cases separator <;>
    · rcases hcompletes with ⟨other, hother, hreads⟩
      cases hother
      exact hreads

/-- A chain of readers that has read a term reads on at a separator only. -/
theorem chain_of_term {separator : TokenKind} {stop fuel : Nat} {term : Reader Formula}
    {tokens rest : List Token} {first : Formula}
    (hfirst : term tokens = ⟨first.mentions, .ok (first, rest)⟩)
    (hends : ∀ token ∈ rest.head?, token.kind ≠ separator) :
    chain separator stop term (fuel + 1) tokens =
      ⟨Formula.mentionsOfAll [first], .ok ([first], rest)⟩ := by
  rw [chain]
  refine Recorded.bind_eq_ok_iff.mpr ⟨_, _, [], hfirst, ?_, rfl⟩
  cases rest with
  | nil => rfl
  | cons token rest =>
      have hne := hends token rfl
      simp only [if_neg hne]
      rfl

theorem chain_of_term_more {separator : TokenKind} {stop fuel : Nat} {term : Reader Formula}
    {tokens behind rest : List Token} {mark : Token} {first : Formula} {others : List Formula}
    (hfirst : term tokens = ⟨first.mentions, .ok (first, mark :: behind)⟩)
    (hmark : mark.kind = separator)
    (hrest : chain separator stop term fuel behind =
      ⟨Formula.mentionsOfAll others, .ok (others, rest)⟩) :
    chain separator stop term (fuel + 1) tokens =
      ⟨Formula.mentionsOfAll (first :: others), .ok (first :: others, rest)⟩ := by
  rw [chain]
  refine Recorded.bind_eq_ok_iff.mpr ⟨_, _, _, hfirst, ?_, rfl⟩
  simp only [if_pos hmark]
  exact Recorded.bind_eq_ok_of_pure hrest rfl

theorem readsSeries_last {separator : Separator} (hcomma : separator ≠ .comma) {faces : List Face}
    {term : Formula} (hterm : Reads dialect separator.term faces term) (hne : faces ≠ []) :
    ReadsSeries dialect separator faces [term] := by
  intro used rest depth fuel stop hused hdepth hfuel hends
  have hterm_ends : Ends separator.term rest := by
    apply hends.mono
    cases separator <;> simp [continuations, Separator.term]
  have hfirst := hterm stop hused hdepth hterm_ends
  have hstop : ∀ token ∈ rest.head?, token.kind ≠ separator.kind := by
    intro token htoken hkind
    cases rest with
    | nil => cases htoken
    | cons next rest =>
        cases htoken
        apply hends
        rw [hkind]
        cases separator with
        | comma => exact absurd rfl hcomma
        | _ => simp [continuations, Separator.kind]
  cases fuel with
  | zero =>
      have hnil := List.length_eq_zero_iff.mp (Nat.le_zero.mp hfuel)
      rw [hnil] at hused
      exact absurd hused.symm hne
  | succ fuel => exact chain_of_term hfirst hstop

theorem readsSeries_more {separator : Separator} (hcomma : separator ≠ .comma) {mark : Face}
    {left right : List Face} {term : Formula} {terms : List Formula}
    (hterm : Reads dialect separator.term left term) (hmark : mark.kind = separator.kind)
    (hterms : ReadsSeries dialect separator right terms) :
    ReadsSeries dialect separator (left ++ mark :: right) (term :: terms) := by
  intro used rest depth fuel stop hused hdepth hfuel hends
  rcases List.map_eq_append_iff.mp hused with ⟨first, behind, rfl, hfirst, hbehind⟩
  rcases List.map_eq_cons_iff.mp hbehind with ⟨token, others, rfl, htoken, hothers⟩
  have hkind : token.kind = separator.kind := Token.kind_of_face htoken hmark
  simp only [List.length_append, List.length_cons] at hdepth hfuel
  have hterm_ends : Ends separator.term (token :: (others ++ rest)) := by
    intro hmem
    rw [hkind] at hmem
    cases separator with
    | comma => exact hcomma rfl
    | _ => simp [continuations, Separator.kind, Separator.term] at hmem
  cases fuel with
  | zero => omega
  | succ fuel =>
      have hread := hterm stop hfirst (by omega : first.length ≤ depth) hterm_ends
      have hrest := hterms stop hothers (by omega : others.length ≤ depth)
        (by omega : others.length ≤ fuel) hends
      rw [List.append_assoc, List.cons_append]
      exact chain_of_term_more hread hkind hrest

/-- A series that is read is read joined. -/
theorem series_of_readsSeries {separator : Separator} {join : List Formula → Formula}
    (hjoin : ∀ terms, (join terms).mentions = Formula.mentionsOfAll terms) {faces : List Face}
    {terms : List Formula} (hterms : ReadsSeries dialect separator faces terms)
    {used rest : List Token} {depth : Nat} (stop : Nat) (hused : used.map Token.face = faces)
    (hdepth : used.length ≤ depth) (hends : Ends (.series separator) rest) :
    series separator.kind join stop (termReader dialect depth stop separator.term)
      (used ++ rest) = ⟨(joined join terms).mentions, .ok (joined join terms, rest)⟩ := by
  have hfuel : used.length ≤ (used ++ rest).length + 1 := by
    rw [List.length_append]
    omega
  rw [mentions_joined hjoin]
  exact Recorded.bind_eq_ok_of_pure (hterms stop hused hdepth hfuel hends) rfl

/-! ## Operands -/

theorem reads_negation {mark : Face} {faces : List Face} {formula : Formula}
    (hmark : mark.kind = .not) (hfaces : Reads dialect .unary faces formula) :
    Reads dialect .unary (mark :: faces) (.not formula) := by
  intro used rest depth stop hused hdepth hends
  rcases List.map_eq_cons_iff.mp hused with ⟨token, others, rfl, htoken, hothers⟩
  have hkind : token.kind = .not := Token.kind_of_face htoken hmark
  have hread := hfaces stop hothers (Nat.le_of_succ_le hdepth) hends
  rw [termReader, List.cons_append, negated, if_pos hkind, Formula.mentions]
  exact Recorded.bind_eq_ok_of_pure hread rfl

theorem reads_plain {face : Face} {faces : List Face} {formula : Formula}
    (hface : face.kind ≠ .not) (hfaces : Reads dialect .primary (face :: faces) formula) :
    Reads dialect .unary (face :: faces) formula := by
  intro used rest depth stop hused hdepth hends
  have hread := hfaces stop hused hdepth hends
  rcases List.map_eq_cons_iff.mp hused with ⟨token, others, rfl, htoken, -⟩
  have hkind : token.kind ≠ .not := by rwa [← Token.kind_face, htoken]
  simp only [termReader, List.cons_append] at hread ⊢
  rw [negated, if_neg hkind]
  exact hread

/-- Tokens that look like an inside and a closing parenthesis are so. -/
theorem exists_closing_of_map_eq {used : List Token} {faces : List Face} {closing : Face}
    (hused : used.map Token.face = faces ++ [closing]) (hclosing : closing.kind = .rparen) :
    ∃ inner token, used = inner ++ [token] ∧ inner.map Token.face = faces ∧
      token.kind = .rparen := by
  rcases List.map_eq_append_iff.mp hused with ⟨inner, last, rfl, hinner, hlast⟩
  rcases List.map_eq_singleton_iff.mp hlast with ⟨token, rfl, htoken⟩
  exact ⟨inner, token, rfl, hinner, Token.kind_of_face htoken hclosing⟩

theorem reads_group {opening closing : Face} {faces : List Face} {formula : Formula}
    (hopening : opening.kind = .lparen) (hfaces : Reads dialect .disjunction faces formula)
    (hclosing : closing.kind = .rparen) :
    Reads dialect .primary (opening :: faces ++ [closing]) formula := by
  intro used rest depth stop hused hdepth hends
  rw [List.cons_append] at hused
  rcases List.map_eq_cons_iff.mp hused with ⟨first, behind, rfl, hfirst, hbehind⟩
  rcases exists_closing_of_map_eq hbehind hclosing with ⟨inner, token, rfl, hinner, hlast_kind⟩
  have hfirst_kind : first.kind = .lparen := Token.kind_of_face hfirst hopening
  simp only [List.length_cons, List.length_append, List.length_nil] at hdepth
  obtain ⟨depth, rfl⟩ : ∃ inner, depth = inner + 1 := ⟨depth - 1, by omega⟩
  have hinner_ends : Ends .disjunction (token :: rest) := by
    intro hmem
    rw [hlast_kind] at hmem
    simp [continuations] at hmem
  have hread := hfaces stop hinner (by omega : inner.length ≤ depth) hinner_ends
  simp only [termReader] at hread
  rw [termReader, List.cons_append, List.append_assoc, List.singleton_append]
  simp only [operand, hfirst_kind]
  apply Recorded.bind_eq_ok_of_pure hread
  exact if_pos hlast_kind

/-! ## Names and calls -/

/-- What a word is read as does not depend on its place. -/
theorem reads_word {word : Face} {name : String} (hword : word.kind = .ident name)
    {formula : Formula} (hread : ∀ {head : Token}, head.kind = .ident name →
      Reader.word dialect head name = ⟨formula.mentions, .ok formula⟩) :
    Reads dialect .primary [word] formula := by
  intro used rest depth stop hused hdepth hends
  rcases List.map_eq_singleton_iff.mp hused with ⟨token, rfl, htoken⟩
  have hkind : token.kind = .ident name := Token.kind_of_face htoken hword
  have hvalue := hread hkind
  rw [termReader, List.singleton_append]
  cases rest with
  | nil =>
      simp only [operand, hkind]
      exact Recorded.bind_eq_ok_of_pure hvalue rfl
  | cons next rest =>
      have hnext : next.kind ≠ .lparen := by
        intro hlparen
        apply hends
        rw [hlparen]
        simp [continuations]
      simp only [operand, hkind, if_neg hnext]
      exact Recorded.bind_eq_ok_of_pure hvalue rfl

/-- What a call is read as depends on its arguments alone. -/
theorem reads_call {head opening closing : Face} {name : String} {arguments : List (List Face)}
    {faces : List Face} {formula : Formula} (hhead : head.kind = .ident name)
    (hopening : opening.kind = .lparen) (harguments : ArgumentList arguments faces)
    (hclosing : closing.kind = .rparen)
    (hread : ∀ {parts : List (List Token)} {depth : Nat} (stop : Nat) (head opening : Token),
      parts.map (List.map Token.face) = arguments → faces.length < depth →
      called dialect (disjunction dialect depth) stop head name opening parts =
        ⟨formula.mentions, .ok formula⟩) :
    Reads dialect .primary (head :: opening :: faces ++ [closing]) formula := by
  intro used rest depth stop hused hdepth hends
  rw [List.cons_append, List.cons_append] at hused
  rcases List.map_eq_cons_iff.mp hused with ⟨first, behind, rfl, hfirst, hbehind⟩
  rcases List.map_eq_cons_iff.mp hbehind with ⟨second, inside, rfl, hsecond, hinside⟩
  rcases exists_closing_of_map_eq hinside hclosing with ⟨inner, token, rfl, hinner, hlast_kind⟩
  have hfirst_kind : first.kind = .ident name := Token.kind_of_face hfirst hhead
  have hsecond_kind : second.kind = .lparen := Token.kind_of_face hsecond hopening
  have hlength : inner.length = faces.length := by rw [← hinner, List.length_map]
  simp only [List.length_cons, List.length_append, List.length_nil] at hdepth
  rcases arguments_complete harguments hinner stop hlast_kind rest with ⟨parts, hparts, hsplit⟩
  have hvalue := hread stop first second hparts (by omega : faces.length < depth)
  simp only [termReader, List.cons_append, List.append_assoc, List.nil_append, operand,
    hfirst_kind, hsecond_kind, if_true]
  rw [call_eq]
  refine Recorded.bind_eq_ok_iff.mpr ⟨[], _, _, hsplit, ?_, (List.nil_append _).symm⟩
  exact Recorded.bind_eq_ok_of_pure hvalue rfl

end Reader

end SeedLogic
