import SeedLogic.Proofs.Formula.Blame

/-!
# Readers and places

Tokens can be read in the place of the tokens of a text that look the same: they are a copy
of them (`Copy`).  A reader does the same with a copy as with the tokens of the text, up to
the places of its faults, and all of its faults in the text are explained
(`Copy.formula_alike`).  A copy may be `literal`; then the places are the same, too.
-/

namespace SeedLogic

open Text (Span isBoundary)

/-! ## Outcomes alike -/

/-- The same names are written, and the results are related. -/
inductive Parse.Alike {α β : Type} (errors : ParseError → ParseError → Prop)
    (values : α → β → Prop) : Parse α → Parse β → Prop where
  | ok {trace : List Mention} {value : α} {other : β} :
      values value other → Alike errors values ⟨trace, .ok value⟩ ⟨trace, .ok other⟩
  | error {trace : List Mention} {error other : ParseError} :
      errors error other → Alike errors values ⟨trace, .error error⟩ ⟨trace, .error other⟩

namespace Parse.Alike

variable {α β α' β' : Type} {errors errors' : ParseError → ParseError → Prop}
  {values : α → β → Prop} {values' : α' → β' → Prop} {left : Parse α} {right : Parse β}

theorem pure {value : α} {other : β} (hvalues : values value other) :
    Alike errors values (Pure.pure value) (Pure.pure other) :=
  .ok hvalues

theorem fail {error other : ParseError} (herrors : errors error other) :
    Alike errors values (.fail error) (.fail other) :=
  .error herrors

/-- Sequences are alike when their parts are. -/
theorem bind (hfirst : Alike errors values left right) {next : α → Parse α'}
    {next' : β → Parse β'}
    (hnext : ∀ {value other}, values value other →
      Alike errors values' (next value) (next' other)) :
    Alike errors values' (left >>= next) (right >>= next') := by
  cases hfirst with
  | error herrors => exact .error herrors
  | @ok trace value other hvalues =>
      have hleft : (⟨trace, .ok value⟩ >>= next) =
          (⟨trace ++ (next value).trace, (next value).result⟩ : Parse α') := rfl
      have hright : (⟨trace, .ok other⟩ >>= next') =
          (⟨trace ++ (next' other).trace, (next' other).result⟩ : Parse β') := rfl
      have hlater : Alike errors values' (next value) (next' other) := hnext hvalues
      rw [hleft, hright]
      generalize next value = first at hlater ⊢
      generalize next' other = second at hlater ⊢
      cases hlater with
      | ok hresults => exact .ok hresults
      | error herrors => exact .error herrors

theorem mapFault (halike : Alike errors values left right)
    {change change' : ParseError → ParseError}
    (hchange : ∀ {error other}, errors error other → errors' (change error) (change' other)) :
    Alike errors' values (left.mapFault change) (right.mapFault change') := by
  cases halike with
  | ok hvalues => exact .ok hvalues
  | error herrors => exact .error (hchange herrors)

/-- Values that are related are values that the right outcome has. -/
theorem values_right (halike : Alike errors values left right) {weaker : α → β → Prop}
    (hvalues : ∀ {value other}, values value other → right.result = .ok other →
      weaker value other) : Alike errors weaker left right := by
  cases halike with
  | ok hresults => exact .ok (hvalues hresults rfl)
  | error herrors => exact .error herrors

/-- Errors that are related are errors that the right outcome has. -/
theorem errors_right (halike : Alike errors values left right) :
    Alike (fun error other => errors error other ∧ right.result = .error other) values
      left right := by
  cases halike with
  | ok hvalues => exact .ok hvalues
  | error herrors => exact .error ⟨herrors, rfl⟩

/-- Outcomes with the same results are the same. -/
theorem eq {right : Parse α} (halike : Alike errors Eq left right)
    (herrors : ∀ {error other}, errors error other → error = other) : left = right := by
  cases halike with
  | ok hvalues => rw [hvalues]
  | error hfaults => rw [herrors hfaults]

end Parse.Alike

/-! ## Arguments of one token -/

namespace Face

/-- The identifier that faces are. -/
def identifier? : List Face → Option String
  | [⟨.ident name, _⟩] => some name
  | _ => none

/-- The number that faces are. -/
def number? : List Face → Option Nat
  | [⟨.number value, _⟩] => some value
  | _ => none

/-- The spelling of the face that faces are. -/
def settingValue? : List Face → Option String
  | [face] => some face.text
  | _ => none

variable (stop : Nat) (argument : List Token)

theorem identifier_eq : Reader.identifier stop argument =
    (identifier? (argument.map Token.face)).elim
      (.failAt (Token.nextSpan stop argument) (.expected .singleIdentifier)) pure := by
  rcases argument with _ | ⟨⟨kind, offset, text⟩, _ | ⟨second, rest⟩⟩
  · rfl
  · cases kind <;> rfl
  · cases kind <;> rfl

theorem number_eq : Reader.number stop argument =
    (number? (argument.map Token.face)).elim
      (.failAt (Token.nextSpan stop argument) (.expected .number)) pure := by
  rcases argument with _ | ⟨⟨kind, offset, text⟩, _ | ⟨second, rest⟩⟩
  · rfl
  · cases kind <;> rfl
  · cases kind <;> rfl

theorem settingValue_eq : Reader.settingValue stop argument =
    (settingValue? (argument.map Token.face)).elim
      (.failAt (Token.nextSpan stop argument) (.expected .singleSettingValue)) pure := by
  rcases argument with _ | ⟨token, _ | ⟨second, rest⟩⟩ <;> rfl

end Face

/-! ## Copies -/

/-- A text whose tokens are copied.  A literal copy has the same places. -/
structure Copy (game : Game) (macros : MacroTable) (depth : Nat) where
  text : String
  all : List Token
  scan_eq : scan text = .ok all
  literal : Prop

namespace Copy

variable {game : Game} {macros : MacroTable} {depth : Nat} (copy : Copy game macros depth)

/-- Tokens look the same, and are the same in a literal copy. -/
structure Same (tokens others : List Token) : Prop where
  faces : tokens.map Token.face = others.map Token.face
  eq : copy.literal → tokens = others

/-- Tokens are copied from tokens that stand together in the text. -/
structure Within (tokens others : List Token) : Prop extends Same copy tokens others where
  stands : others <:+: copy.all

/-- Tokens are copied from tokens of the text that begin between the parentheses of no macro
call.  Where they are `fresh`, no name of a macro stands in front of them. -/
structure Of (fresh : Prop) (tokens others : List Token) : Prop
    extends Same copy tokens others where
  placed : ∃ left right, copy.all = left ++ (others ++ right) ∧ Macro.Outside macros left ∧
    (fresh → (Nesting.behind macros left).named = false)

/-- A place is copied from a boundary of the text. -/
structure At (span other : Span) : Prop where
  boundary : isBoundary other.offset copy.text.toList = true
  eq : copy.literal → span = other

/-- An error of the copy is that of the text, where it is explained. -/
inductive Errors : ParseError → ParseError → Prop where
  | misread {fault other : Fault} :
      fault.issue = other.issue → (copy.literal → fault.span = other.span) →
      other.Explained game macros depth copy.text → Errors (.misread fault) (.misread other)
  | unknownFunction (name : String) : Errors (.unknownFunction name) (.unknownFunction name)
  | recursiveMacro (name : String) : Errors (.recursiveMacro name) (.recursiveMacro name)

/-- The outcome for the copy is that for the text. -/
abbrev Alike {α β : Type} (values : α → β → Prop) (left : Parse α) (right : Parse β) : Prop :=
  Parse.Alike copy.Errors values left right

/-- The same value is handed back, and the copy of the other tokens. -/
def Hands {α : Type} (left right : α × List Token) : Prop :=
  left.1 = right.1 ∧ copy.Of False left.2 right.2

/-- Two readers do the same, one with the copy and one with the text. -/
def Readers (reader other : Reader Formula) : Prop :=
  ∀ ⦃tokens others⦄, copy.Of True tokens others →
    copy.Alike copy.Hands (reader tokens) (other others)

/-- The ends of two lists of tokens. -/
abbrev Stops (stop place : Nat) : Prop :=
  copy.At ⟨stop, 0⟩ ⟨place, 0⟩

variable {copy} {tokens others : List Token} {stop place : Nat}

theorem Same.nil_iff (hsame : copy.Same tokens others) : tokens = [] ↔ others = [] := by
  have hfaces := congrArg List.isEmpty hsame.faces
  rw [List.isEmpty_map, List.isEmpty_map] at hfaces
  rw [← List.isEmpty_iff, hfaces, List.isEmpty_iff]

theorem Same.nil (hsame : copy.Same [] others) : others = [] :=
  hsame.nil_iff.mp rfl

theorem Same.length_eq (hsame : copy.Same tokens others) : tokens.length = others.length := by
  have hlength := congrArg List.length hsame.faces
  rwa [List.length_map, List.length_map] at hlength

theorem Same.append {left right left' right' : List Token} (hleft : copy.Same left left')
    (hright : copy.Same right right') : copy.Same (left ++ right) (left' ++ right') where
  faces := by rw [List.map_append, List.map_append, hleft.faces, hright.faces]
  eq hliteral := by rw [hleft.eq hliteral, hright.eq hliteral]

/-- The first token of a copy, and the others. -/
theorem Within.cons {token : Token} (hwithin : copy.Within (token :: tokens) others) :
    ∃ other rest, others = other :: rest ∧ token.kind = other.kind ∧
      copy.Same [token] [other] ∧ copy.At token.span other.span ∧ copy.Within tokens rest := by
  rcases List.map_eq_cons_iff.mp hwithin.faces.symm with ⟨other, rest, rfl, hface, hfaces⟩
  have heq : copy.literal → token = other ∧ tokens = rest := fun hliteral =>
    List.cons.inj (hwithin.eq hliteral)
  rcases hwithin.stands with ⟨left, right, hall⟩
  have hscan : scan copy.text = .ok (left ++ ([other] ++ (rest ++ right))) := by
    rw [copy.scan_eq, ← hall]
    simp
  refine ⟨other, rest, rfl, congrArg Face.kind hface.symm, ⟨?_, ?_⟩, ⟨?_, ?_⟩, ⟨⟨?_, ?_⟩, ?_⟩⟩
  · rw [List.map_singleton, List.map_singleton, hface]
  · intro hliteral
    rw [(heq hliteral).1]
  · exact (Token.isBoundary_of_scan hscan (List.cons_ne_nil _ _)).1
  · intro hliteral
    rw [(heq hliteral).1]
  · exact hfaces.symm
  · exact fun hliteral => (heq hliteral).2
  · exact (List.suffix_cons other rest).isInfix.trans hwithin.stands

section Of

variable {fresh : Prop}

theorem Of.within (hof : copy.Of fresh tokens others) : copy.Within tokens others := by
  rcases hof.placed with ⟨left, right, hall, -⟩
  refine ⟨hof.toSame, left, right, ?_⟩
  rw [hall, List.append_assoc]

theorem Of.mono {stale : Prop} (hof : copy.Of fresh tokens others) (hfresh : stale → fresh) :
    copy.Of stale tokens others := by
  rcases hof.placed with ⟨left, right, hall, houtside, hnamed⟩
  exact ⟨hof.toSame, left, right, hall, houtside, fun hstale => hnamed (hfresh hstale)⟩

/-- Behind a token that opens no macro call one is as far outside as before it. -/
theorem outside_append {left : List Token} {token : Token} (houtside : Macro.Outside macros left)
    (hnamed : token.kind = .lparen → (Nesting.behind macros left).named = false) :
    Macro.Outside macros (left ++ [token]) := by
  unfold Macro.Outside at houtside ⊢
  rw [Nesting.behind_append_singleton, Nesting.next]
  split
  case h_1 hkind => simpa [hnamed hkind] using houtside
  case h_2 => exact mt List.mem_of_mem_tail houtside
  case h_3 => exact houtside
  case h_4 => exact houtside

theorem named_append {left : List Token} {token : Token}
    (hkind : ∀ name, token.kind ≠ .ident name) :
    (Nesting.behind macros (left ++ [token])).named = false := by
  rw [Nesting.behind_append_singleton, Nesting.next]
  split
  case h_3 name hname => exact absurd hname (hkind name)
  all_goals rfl

/-- The tokens behind the first one are outside as well, unless that opens a macro call. -/
theorem Of.cons {token : Token} (hof : copy.Of fresh (token :: tokens) others) :
    ∃ other rest, others = other :: rest ∧ token.kind = other.kind ∧
      copy.At token.span other.span ∧ ((token.kind = .lparen → fresh) →
        copy.Of (∀ name, token.kind ≠ .ident name) tokens rest) := by
  rcases hof.within.cons with ⟨other, rest, rfl, hkind, -, hat, hrest⟩
  refine ⟨other, rest, rfl, hkind, hat, fun hfresh => ⟨hrest.toSame, ?_⟩⟩
  rcases hof.placed with ⟨left, right, hall, houtside, hnamed⟩
  refine ⟨left ++ [other], right, by rw [hall]; simp, ?_, ?_⟩
  · apply outside_append houtside
    intro hlparen
    exact hnamed (hfresh (hkind.trans hlparen))
  · intro hother
    apply named_append
    rwa [hkind] at hother

end Of

theorem nextSpan_at (hwithin : copy.Within tokens others) (hstop : copy.Stops stop place) :
    copy.At (Token.nextSpan stop tokens) (Token.nextSpan place others) := by
  cases tokens with
  | nil =>
      rw [hwithin.nil]
      exact hstop
  | cons token tokens =>
      rcases hwithin.cons with ⟨other, rest, rfl, -, -, hat, -⟩
      exact hat

/-- An argument of the copy ends where the argument of the text does. -/
theorem argumentStop_at (hwithin : copy.Within tokens others) (hstop : copy.Stops stop place) :
    copy.Stops (Reader.argumentStop stop tokens) (Reader.argumentStop place others) := by
  by_cases hne : others = []
  · subst hne
    rw [hwithin.nil_iff.mpr rfl]
    exact hstop
  · rcases hwithin.stands with ⟨left, right, hall⟩
    have hscan : scan copy.text = .ok (left ++ (others ++ right)) := by
      rw [copy.scan_eq, ← hall, List.append_assoc]
    obtain ⟨last, hlast⟩ : ∃ last, others.getLast? = some last :=
      Option.isSome_iff_exists.mp (by simpa using hne)
    have hend : ∀ stop, Reader.argumentStop stop others = last.stop := by
      intro stop
      rw [Reader.argumentStop, hlast, Option.map_some, Option.getD_some]
    constructor
    · have hboundary := (Token.isBoundary_of_scan hscan hne).2
      rwa [hend] at hboundary ⊢
    · intro hliteral
      rw [hwithin.eq hliteral, hend, hend]

/-! ## Faults -/

/-- A fault of the text itself has its place in the text. -/
theorem failAt_alike {α β : Type} {values : α → β → Prop} {span other : Span}
    {issue : SyntaxIssue} (hat : copy.At span other) (hissue : issue.ofCall = false) :
    copy.Alike values (.failAt span issue) (.failAt other issue) :=
  .fail (.misread rfl hat.eq (.own hissue hat.boundary))

/-! ## Series -/

/-- Terms are copied when none of them is behind a name or an open parenthesis. -/
theorem chain_alike {separator : TokenKind} (hseparator : separator = .or ∨ separator = .and)
    {term other : Reader Formula} (hterm : copy.Readers term other)
    (hstop : copy.Stops stop place) (fuel : Nat) (hof : copy.Of True tokens others) :
    copy.Alike copy.Hands (Reader.chain separator stop term fuel tokens)
      (Reader.chain separator place other fuel others) := by
  induction fuel generalizing tokens others with
  | zero => exact failAt_alike (nextSpan_at hof.within hstop) rfl
  | succ fuel ih =>
      rw [Reader.chain, Reader.chain]
      apply (hterm hof).bind
      rintro ⟨first, rest⟩ ⟨_, behind⟩ ⟨rfl, hrest⟩
      cases rest with
      | nil =>
          obtain rfl := hrest.nil
          exact .pure ⟨rfl, hrest⟩
      | cons mark rest =>
          rcases hrest.cons with ⟨other, others, rfl, hkind, -, hbehind⟩
          dsimp only
          rw [← hkind]
          split
          case isTrue hmark =>
            have hnext : copy.Of True rest others := by
              apply (hbehind _).mono
              · intro _ name
                rcases hseparator with rfl | rfl <;> simp [hmark]
              · rcases hseparator with rfl | rfl <;> simp [hmark]
            apply (ih hnext).bind
            rintro ⟨terms, last⟩ ⟨_, after⟩ ⟨rfl, hlast⟩
            exact .pure ⟨rfl, hlast⟩
          case isFalse => exact .pure ⟨rfl, hrest⟩

theorem series_readers {separator : TokenKind} (hseparator : separator = .or ∨ separator = .and)
    {join : List Formula → Formula} {term other : Reader Formula}
    (hterm : copy.Readers term other) (hstop : copy.Stops stop place) :
    copy.Readers (Reader.series separator join stop term)
      (Reader.series separator join place other) := by
  intro tokens others hof
  unfold Reader.series
  rw [hof.length_eq]
  apply (chain_alike hseparator hterm hstop _ hof).bind
  rintro ⟨terms, rest⟩ ⟨_, behind⟩ ⟨rfl, hrest⟩
  exact .pure ⟨rfl, hrest⟩

theorem negated_readers {term other : Reader Formula} (hterm : copy.Readers term other) :
    copy.Readers (Reader.negated term) (Reader.negated other) := by
  intro tokens
  induction tokens with
  | nil =>
      intro others hof
      obtain rfl := hof.nil
      exact hterm hof
  | cons token tokens ih =>
      intro others hof
      rcases hof.cons with ⟨mark, rest, rfl, hkind, -, hrest⟩
      rw [Reader.negated, Reader.negated, ← hkind]
      split
      case isTrue hnot =>
        have hnext : copy.Of True tokens rest := by
          apply (hrest fun _ => trivial).mono
          intro _ name
          simp [hnot]
        apply (ih hnext).bind
        rintro ⟨operand, behind⟩ ⟨_, after⟩ ⟨rfl, hbehind⟩
        exact .pure ⟨rfl, hbehind⟩
      case isFalse => exact hterm hof

/-! ## Arguments -/

/-- Arguments of the copy are found where the arguments of the text are. -/
theorem splitArguments_alike {level : Nat} {part part' : List Token}
    {parts parts' : List (List Token)} (hstop : copy.Stops stop place)
    (hwithin : copy.Within tokens others) (hpart : copy.Same part part')
    (hparts : List.Forall₂ copy.Same parts parts') :
    copy.Alike (fun left right => List.Forall₂ copy.Same left.1 right.1 ∧
        copy.Same left.2 right.2)
      (Reader.splitArguments stop level part parts tokens)
      (Reader.splitArguments place level part' parts' others) := by
  induction tokens generalizing others level part part' parts parts' with
  | nil =>
      obtain rfl := hwithin.nil
      exact failAt_alike hstop rfl
  | cons token tokens ih =>
      rcases hwithin.cons with ⟨other, others, rfl, hkind, hsame, hat, hrest⟩
      cases hafter : levelAfter level token.kind with
      | some after =>
          rw [Reader.splitArguments_keep hafter, Reader.splitArguments_keep (hkind ▸ hafter)]
          exact ih hrest (hpart.append hsame) hparts
      | none =>
          have hadded : List.Forall₂ copy.Same (parts ++ [part]) (parts' ++ [part']) :=
            List.rel_append hparts (.cons hpart .nil)
          rcases levelAfter_eq_none hafter with ⟨rfl, hclosing | hcomma⟩
          · have hother : other.kind = .rparen := hkind ▸ hclosing
            simp only [Reader.splitArguments, hclosing, hother]
            by_cases hnil : part = []
            · obtain rfl := hpart.nil_iff.mp hnil
              subst hnil
              cases hparts with
              | nil => exact .pure ⟨.nil, hrest.toSame⟩
              | cons => exact failAt_alike hat rfl
            · rcases List.exists_cons_of_ne_nil hnil with ⟨first, tail, rfl⟩
              rcases List.exists_cons_of_ne_nil (mt hpart.nil_iff.mpr hnil) with
                ⟨first', tail', rfl⟩
              exact .pure ⟨hadded, hrest.toSame⟩
          · have hother : other.kind = .comma := hkind ▸ hcomma
            simp only [Reader.splitArguments, hcomma, hother]
            by_cases hnil : part = []
            · obtain rfl := hpart.nil_iff.mp hnil
              subst hnil
              exact failAt_alike hat rfl
            · rcases List.exists_cons_of_ne_nil hnil with ⟨first, tail, rfl⟩
              rcases List.exists_cons_of_ne_nil (mt hpart.nil_iff.mpr hnil) with
                ⟨first', tail', rfl⟩
              exact ih hrest ⟨rfl, fun _ => rfl⟩ hadded

/-- The arguments of a call are copied from those of the call in the text.  When it is no
call of a macro, they are outside of all macro calls as well. -/
theorem arguments_alike (hstop : copy.Stops stop place) (hwithin : copy.Within tokens others)
    {left right : List Token} (hall : copy.all = left ++ (others ++ right)) {mark : Bool}
    {marks : List Bool} (hnesting : Nesting.behind macros left = ⟨false, mark :: marks⟩)
    (houtside : true ∉ marks) :
    copy.Alike (fun mine theirs => List.Forall₂ copy.Within mine.1 theirs.1 ∧
        (mark = false → List.Forall₂ (copy.Of True) mine.1 theirs.1) ∧
        copy.Of False mine.2 theirs.2 ∧ (Reader.arguments place others).result = .ok theirs)
      (Reader.arguments stop tokens) (Reader.arguments place others) := by
  have hfound : copy.Alike _ (Reader.arguments stop tokens) (Reader.arguments place others) :=
    splitArguments_alike hstop hwithin ⟨rfl, fun _ => rfl⟩ .nil
  apply hfound.values_right
  rintro ⟨parts, rest⟩ ⟨parts', after⟩ ⟨hparts, hrest⟩ hresult
  have hsplit : Reader.splitArguments place 0 [] [] others = ⟨_, .ok (parts', after)⟩ :=
    Recorded.ext rfl hresult
  have hmarks : (Nesting.behind macros (left ++ [])).marks = [] ++ (mark :: marks) := by
    rw [List.append_nil, hnesting]
    rfl
  rcases Nesting.of_splitArguments hsplit rfl hmarks hnesting with
    ⟨⟨used, rfl, hused⟩, hbegins⟩
  rw [List.append_nil] at hused hbegins
  have hplaced : ∀ part' ∈ parts', ∃ before behind, copy.all = before ++ (part' ++ behind) ∧
      Nesting.behind macros before = ⟨false, mark :: marks⟩ := by
    intro part' hmem
    rcases hbegins part' hmem with hnone | ⟨before, behind, hbefore, hbehind⟩
    · cases hnone
    · refine ⟨before, behind ++ right, ?_, hbehind⟩
      rw [hall, ← List.append_assoc, hbefore]
      simp
  have hboth := ((List.forall₂_and_left parts' parts).mpr ⟨hplaced, hparts.flip⟩).flip
  refine ⟨hboth.imp ?_, fun hmark => hboth.imp ?_, ⟨hrest, ?_⟩, hresult⟩
  · rintro part part' ⟨⟨before, behind, hpart, -⟩, hsame⟩
    exact ⟨hsame, before, behind, by rw [hpart, List.append_assoc]⟩
  · rintro part part' ⟨⟨before, behind, hpart, hbefore⟩, hsame⟩
    refine ⟨hsame, before, behind, hpart, ?_, fun _ => by rw [hbefore]⟩
    rw [Macro.Outside, hbefore, hmark]
    simpa using houtside
  · refine ⟨left ++ used, right, by rw [hall]; simp, ?_, False.elim⟩
    rw [Macro.Outside, hused]
    exact houtside

end Copy

end SeedLogic
