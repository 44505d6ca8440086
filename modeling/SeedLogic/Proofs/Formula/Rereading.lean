import SeedLogic.Proofs.Formula.Copying

/-!
# Reading copies

A formula is read from a copy of the tokens of a text as it is read, slice by slice, from
the text (`Copy.formula_alike`), when macros stand for the same in both
(`Copy.Expansions`).  There is one lemma for each reader.
-/

namespace SeedLogic

open Text (Span)

namespace Copy

variable {game : Game} {macros : MacroTable} {depth : Nat} {copy : Copy game macros depth}
  {tokens others : List Token} {stop place : Nat}

/-! ## Calls of functions -/

/-- A reader of an argument that looks at faces alone. -/
theorem argument_alike {α : Type} {read : Nat → List Token → Parse α} {issue : SyntaxIssue}
    {value? : List Face → Option α}
    (hread : ∀ stop argument, read stop argument =
      (value? (argument.map Token.face)).elim (.failAt (Token.nextSpan stop argument) issue) pure)
    (hissue : issue.ofCall = false) (hstop : copy.Stops stop place)
    (hwithin : copy.Within tokens others) :
    copy.Alike Eq (read stop tokens) (read place others) := by
  rw [hread, hread, hwithin.faces]
  cases value? (others.map Token.face) with
  | none => exact failAt_alike (nextSpan_at hwithin hstop) hissue
  | some value => exact .pure rfl

theorem identifier_alike (hstop : copy.Stops stop place) (hwithin : copy.Within tokens others) :
    copy.Alike Eq (Reader.identifier stop tokens) (Reader.identifier place others) :=
  argument_alike Face.identifier_eq rfl hstop hwithin

theorem number_alike (hstop : copy.Stops stop place) (hwithin : copy.Within tokens others) :
    copy.Alike Eq (Reader.number stop tokens) (Reader.number place others) :=
  argument_alike Face.number_eq rfl hstop hwithin

theorem settingValue_alike (hstop : copy.Stops stop place) (hwithin : copy.Within tokens others) :
    copy.Alike Eq (Reader.settingValue stop tokens) (Reader.settingValue place others) :=
  argument_alike Face.settingValue_eq rfl hstop hwithin

theorem itemCount_alike {count counts : List Token} (hstop : copy.Stops stop place)
    (hitem : copy.Within tokens others) (hcount : copy.Within count counts) :
    copy.Alike Eq (Reader.itemCount game stop tokens count)
      (Reader.itemCount game place others counts) := by
  unfold Reader.itemCount
  apply (identifier_alike hstop hitem).bind
  rintro name _ rfl
  apply (number_alike hstop hcount).bind
  rintro least _ rfl
  split
  · exact failAt_alike (nextSpan_at hcount hstop) rfl
  · exact .ok rfl

theorem finish_alike {formula : Formula} (hwithin : copy.Within tokens others) :
    copy.Alike Eq (Reader.finish formula tokens) (Reader.finish formula others) := by
  cases tokens with
  | nil =>
      obtain rfl := hwithin.nil
      exact .pure rfl
  | cons token tokens =>
      rcases hwithin.cons with ⟨other, rest, rfl, -, -, hat, -⟩
      exact failAt_alike hat rfl

theorem whole_alike {reader other : Reader Formula} (hreader : copy.Readers reader other)
    (hof : copy.Of True tokens others) :
    copy.Alike Eq (Reader.whole reader tokens) (Reader.whole other others) := by
  apply (hreader hof).bind
  rintro ⟨formula, rest⟩ ⟨_, behind⟩ ⟨rfl, hrest⟩
  exact finish_alike hrest.within

section Inner

variable {inner inner' : Nat → Reader Formula}
  (hinner : ∀ {stop place}, copy.Stops stop place → copy.Readers (inner stop) (inner' place))
include hinner

theorem operands_alike {parts parts' : List (List Token)} (hstop : copy.Stops stop place)
    (hparts : List.Forall₂ (copy.Of True) parts parts') :
    copy.Alike Eq (Reader.operands inner stop parts) (Reader.operands inner' place parts') := by
  induction hparts with
  | nil => exact .pure rfl
  | cons hpart _ ih =>
      apply (whole_alike (hinner (argumentStop_at hpart.within hstop)) hpart).bind
      rintro first _ rfl
      apply ih.bind
      rintro formulas _ rfl
      exact .pure rfl

/-- A call of a function is read as in the text. -/
theorem builtinCall_alike {builtin : Reader.Builtin} {opening other : Span}
    {parts parts' : List (List Token)} (hstop : copy.Stops stop place)
    (hopening : copy.At opening other) (hparts : List.Forall₂ (copy.Of True) parts parts') :
    copy.Alike Eq (Reader.builtinCall game inner stop opening builtin parts)
      (Reader.builtinCall game inner' place other builtin parts') := by
  have harity : copy.Alike Eq
      (.failAt opening (.functionArity builtin.name builtin.arity parts.length) : Parse Formula)
      (.failAt other (.functionArity builtin.name builtin.arity parts'.length)) := by
    rw [hparts.length_eq]
    exact failAt_alike hopening rfl
  cases builtin with
  | has =>
      rcases hparts with _ | ⟨hitem, _ | ⟨hcount, _ | hmore⟩⟩
      · exact harity
      · apply (identifier_alike hstop hitem.within).bind
        rintro name _ rfl
        exact .ok rfl
      · exact itemCount_alike hstop hitem.within hcount.within
      · exact harity
  | event =>
      rcases hparts with _ | ⟨hevent, _ | hmore⟩
      · exact harity
      · apply (identifier_alike hstop hevent.within).bind
        rintro name _ rfl
        exact .ok rfl
      · exact harity
  | setting =>
      rcases hparts with _ | ⟨hsetting, _ | ⟨hvalue, _ | hmore⟩⟩
      · exact harity
      · apply (identifier_alike hstop hsetting.within).bind
        rintro name _ rfl
        exact .ok rfl
      · apply (identifier_alike hstop hsetting.within).bind
        rintro name _ rfl
        apply (settingValue_alike hstop hvalue.within).bind
        rintro value _ rfl
        exact .ok rfl
      · exact harity
  | atLeast =>
      rcases hparts with _ | ⟨hcount, _ | ⟨hfirst, hrest⟩⟩
      · exact harity
      · exact harity
      · apply (number_alike hstop hcount.within).bind
        rintro least _ rfl
        apply (operands_alike hinner hstop (.cons hfirst hrest)).bind
        rintro formulas _ rfl
        exact .pure rfl

end Inner

/-! ## Operands -/

variable (copy) in
/-- A macro that the text calls stands for the same in the copy. -/
def Expansions (expand expand' : Macro → Token → List (List Token) → Parse Formula) : Prop :=
  ∀ {entry head other parts parts'}, copy.At head.span other.span →
    List.Forall₂ copy.Within parts parts' → Macro.CalledIn macros copy.text entry other parts' →
    copy.Alike Eq (expand entry head parts) (expand' entry other parts')

theorem closing_alike {formula : Formula} (hstop : copy.Stops stop place)
    (hof : copy.Of False tokens others) :
    copy.Alike copy.Hands (Reader.closing stop formula tokens)
      (Reader.closing place formula others) := by
  cases tokens with
  | nil =>
      obtain rfl := hof.nil
      exact failAt_alike hstop rfl
  | cons token tokens =>
      rcases hof.cons with ⟨other, rest, rfl, hkind, hat, hrest⟩
      rw [Reader.closing, Reader.closing, ← hkind]
      split
      case isTrue hrparen =>
        have hbehind : copy.Of False tokens rest := by
          apply (hrest _).mono False.elim
          simp [hrparen]
        exact .pure ⟨rfl, hbehind⟩
      case isFalse => exact failAt_alike hat rfl

section Expansions

variable {expand expand' : Macro → Token → List (List Token) → Parse Formula}
  (hexpand : copy.Expansions expand expand') {head other : Token} {name : String}
  (hhead : other.kind = .ident name) (hat : copy.At head.span other.span) {left right : List Token}
  (houtside : Macro.Outside macros left)
include hexpand hhead hat houtside

/-- A name that is not called is read as in the text. -/
theorem word_alike (hall : copy.all = left ++ (other :: (others ++ right))) :
    copy.Alike Eq (Reader.word ⟨game, macros, expand⟩ head name)
      (Reader.word ⟨game, macros, expand'⟩ other name) := by
  have hscan : scan copy.text = .ok (left ++ (other :: (others ++ right))) := by
    rw [copy.scan_eq, hall]
  unfold Reader.word
  split
  case isTrue => exact .pure rfl
  case isFalse htrue =>
    split
    case isTrue => exact .pure rfl
    case isFalse hfalse =>
      dsimp only
      split
      case h_2 => exact .ok rfl
      case h_1 entry hfind =>
        split
        case isTrue hparams =>
          have hname : ∀ value, name ≠ constantName value := by
            intro value
            cases value with
            | true => exact htrue
            | false => exact hfalse
          apply hexpand hat .nil
          exact ⟨left, [], _, hscan, houtside,
            .name hhead hname hfind (List.isEmpty_iff.mp hparams)⟩
        case isFalse hparams =>
          obtain rfl := MacroTable.name_of_find? hfind
          exact .fail (.misread rfl hat.eq (.bare ⟨left, _, hscan, houtside, hhead, hfind⟩
            (mt List.isEmpty_iff.mpr hparams)))

section Inner

variable {inner inner' : Nat → Reader Formula}
  (hinner : ∀ {stop place}, copy.Stops stop place → copy.Readers (inner stop) (inner' place))
include hinner

/-- A name that is called is read as in the text. -/
theorem call_alike {opening second : Token} (hstop : copy.Stops stop place)
    (hopening : second.kind = .lparen) (hsecond : copy.At opening.span second.span)
    (hwithin : copy.Within tokens others)
    (hall : copy.all = left ++ (other :: second :: others ++ right)) :
    copy.Alike copy.Hands
      (Reader.call ⟨game, macros, expand⟩ inner stop head name opening tokens)
      (Reader.call ⟨game, macros, expand'⟩ inner' place other name second others) := by
  have hnesting : Nesting.behind macros (left ++ [other] ++ [second]) =
      ⟨false, (macros.find? name).isSome :: (Nesting.behind macros left).marks⟩ := by
    rw [Nesting.behind_append_singleton, Nesting.behind_append_singleton]
    simp only [Nesting.next, hhead, hopening]
  have hinside : copy.all = left ++ [other] ++ [second] ++ (others ++ right) := by
    rw [hall]
    simp
  rw [Reader.call_eq, Reader.call_eq]
  apply (arguments_alike hstop hwithin hinside hnesting houtside).bind
  rintro ⟨parts, after⟩ ⟨parts', last⟩ ⟨hparts, hplain, hafter, hresult⟩
  have hcalled : ∀ {entry}, macros.find? name = some entry →
      Macro.CalledIn macros copy.text entry other parts' := by
    intro entry hfind
    have hsplit : Reader.splitArguments place 0 [] [] others = ⟨_, .ok (parts', last)⟩ :=
      Recorded.ext rfl hresult
    rcases Reader.splitArguments_used hsplit with ⟨used, rfl, hused⟩
    refine ⟨left, second :: used, last ++ right, ?_, houtside,
      .arguments hhead hfind hopening ?_⟩
    · rw [copy.scan_eq, hall]
      simp
    · have hbetween := hused 0 []
      rwa [List.append_nil] at hbetween
  have hvalue : copy.Alike Eq
      (Reader.called ⟨game, macros, expand⟩ inner stop head name opening parts)
      (Reader.called ⟨game, macros, expand'⟩ inner' place other name second parts') := by
    unfold Reader.called
    dsimp only
    split
    case h_1 entry hfind => exact hexpand hat hparts (hcalled hfind)
    case h_2 hnone =>
      split
      · exact builtinCall_alike hinner hstop hsecond (hplain (by rw [hnone]; rfl))
      · exact .fail (.unknownFunction name)
  apply hvalue.bind
  rintro formula _ rfl
  exact .pure ⟨rfl, hafter⟩

end Inner

end Expansions

section Formulas

variable {expand expand' : Macro → Token → List (List Token) → Parse Formula}
  (hexpand : copy.Expansions expand expand')
include hexpand

/-- An operand of the copy is read as that of the text. -/
theorem operand_readers {inner inner' : Nat → Reader Formula}
    (hinner : ∀ {stop place}, copy.Stops stop place → copy.Readers (inner stop) (inner' place))
    (hstop : copy.Stops stop place) :
    copy.Readers (Reader.operand ⟨game, macros, expand⟩ inner stop)
      (Reader.operand ⟨game, macros, expand'⟩ inner' place) := by
  intro tokens others hof
  cases tokens with
  | nil =>
      obtain rfl := hof.nil
      exact failAt_alike hstop rfl
  | cons head tokens =>
      rcases hof.cons with ⟨other, rest, rfl, hkind, hat, hrest⟩
      have hbehind := hrest fun _ => trivial
      rcases hof.placed with ⟨left, right, hall, houtside, -⟩
      cases hhead : head.kind with
      | lparen =>
          have hother : other.kind = .lparen := hkind.symm.trans hhead
          have hfresh : copy.Of True tokens rest := by
            apply hbehind.mono
            simp [hhead]
          simp only [Reader.operand, hhead, hother]
          apply (hinner hstop hfresh).bind
          rintro ⟨formula, behind⟩ ⟨_, after⟩ ⟨rfl, hafter⟩
          exact closing_alike hstop hafter
      | ident name =>
          have hother : other.kind = .ident name := hkind.symm.trans hhead
          have hword := word_alike hexpand hother hat houtside hall
          have hstale : copy.Of False tokens rest := hbehind.mono False.elim
          simp only [Reader.operand, hhead, hother]
          cases tokens with
          | nil =>
              obtain rfl := hbehind.nil
              apply hword.bind
              rintro formula _ rfl
              exact .pure ⟨rfl, hstale⟩
          | cons opening tokens =>
              rcases hbehind.within.cons with ⟨second, behind, rfl, hsecond, -, hspan, hwithin⟩
              dsimp only
              by_cases hopening : opening.kind = .lparen
              · have hlparen : second.kind = .lparen := hsecond.symm.trans hopening
                rw [if_pos hopening, if_pos hlparen]
                exact call_alike hexpand hother hat houtside hinner hstop hlparen hspan hwithin
                  hall
              · have hlparen : second.kind ≠ .lparen := hsecond ▸ hopening
                rw [if_neg hopening, if_neg hlparen]
                apply hword.bind
                rintro formula _ rfl
                exact .pure ⟨rfl, hstale⟩
      | _ =>
          have hother := hkind.symm.trans hhead
          simp only [Reader.operand, hhead, hother]
          exact failAt_alike hat rfl

/-- A disjunction of the copy is read as that of the text, slice by slice. -/
theorem disjunction_readers (crash : ParseError) (nesting : Nat) :
    ∀ {stop place}, copy.Stops stop place →
      copy.Readers (Reader.disjunction ⟨game, macros, expand⟩ nesting stop)
        (Sliced.disjunction crash copy.text.toList ⟨game, macros, expand'⟩ nesting place) := by
  induction nesting with
  | zero =>
      intro stop place hstop tokens others hof
      exact failAt_alike (nextSpan_at hof.within hstop) rfl
  | succ nesting ih =>
      intro stop place hstop
      have hoperand : copy.Readers
          (Reader.operand ⟨game, macros, expand⟩
            (Reader.disjunction ⟨game, macros, expand⟩ nesting) stop)
          (Sliced.operand crash copy.text.toList ⟨game, macros, expand'⟩
            (Sliced.disjunction crash copy.text.toList ⟨game, macros, expand'⟩ nesting) place) := by
        intro tokens others hof
        rw [Sliced.operand, Sliced.cutArguments_eq copy.scan_eq hof.within.stands, pure_bind]
        exact operand_readers hexpand ih hstop hof
      apply series_readers (.inl rfl) _ hstop
      exact series_readers (.inr rfl) (negated_readers hoperand) hstop

/-- A formula of the copy is read as that of the text, slice by slice. -/
theorem formula_alike (crash : ParseError) (hstop : copy.Stops stop place)
    (hof : copy.Of True tokens others) :
    copy.Alike Eq (Reader.formula ⟨game, macros, expand⟩ stop tokens)
      (Sliced.formula crash copy.text.toList ⟨game, macros, expand'⟩ place others) := by
  unfold Reader.formula Sliced.formula
  rw [hof.length_eq]
  exact whole_alike (disjunction_readers hexpand crash _ hstop) hof

end Formulas

end Copy

end SeedLogic
