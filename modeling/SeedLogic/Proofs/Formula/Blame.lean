import SeedLogic.Proofs.Formula.Slicing

/-!
# What a fault is blamed on

A fault of a text is blamed on a place of the text itself, or on an outermost call of a
macro there: the call has the wrong number of arguments, the body of the macro has no
tokens, or the text that the call is expanded to has a fault of its own, one level deeper
(`Fault.Explained`).  A fault that is blamed on a call stands at the name of the macro
(`Fault.Explained.exists_name`).
-/

namespace SeedLogic

open Text (Span byteWidth isBoundary)

/-! ## Issues -/

namespace SyntaxIssue

/-- Is a macro call blamed? -/
def ofCall : SyntaxIssue → Bool
  | .macroNeedsArguments _ _ => true
  | .macroArity _ _ _ => true
  | .inMacro _ _ => true
  | _ => false

/-- The macros in which an issue is found, the outermost first. -/
def callers : SyntaxIssue → List String
  | .inMacro name issue => name :: callers issue
  | _ => []

/-- What is wrong in the innermost macro. -/
def cause : SyntaxIssue → SyntaxIssue
  | .inMacro _ issue => cause issue
  | issue => issue

/-- How messages begin for an issue in a macro. -/
def mark (name : String) : String :=
  "in macro '" ++ name ++ "': "

theorem callers_eq_nil {issue : SyntaxIssue} (hown : issue.ofCall = false) :
    issue.callers = [] := by
  cases issue with
  | inMacro => cases hown
  | _ => rfl

theorem message_inMacro (name : String) (issue : SyntaxIssue) :
    (inMacro name issue).message = mark name ++ issue.message :=
  rfl

/-- A message begins with the macros in which the issue is found, the outermost first. -/
theorem message_eq (issue : SyntaxIssue) :
    issue.message = (issue.callers.map mark).foldr (· ++ ·) issue.cause.message := by
  induction issue with
  | inMacro name issue ih =>
      rw [message_inMacro, ih, callers, cause, List.map_cons, List.foldr_cons]
  | _ => simp only [callers, cause, List.map_nil, List.foldr_nil]

end SyntaxIssue

/-! ## Names -/

/-- A name among the tokens of a text is quoted in full. -/
theorem Token.fragment_of_scan {text : String} {tokens : List Token}
    (hscan : scan text = .ok tokens) {token : Token} (hmem : token ∈ tokens) {name : String}
    (hkind : token.kind = .ident name) : token.span.fragment text = name := by
  rcases Outcome.exists_of_mem_mapM hscan hmem with ⟨lexeme, hlexeme, htoken⟩
  rcases Lexeme.exists_of_mem_split hlexeme with ⟨left, right, htext, hoffset⟩
  cases lexeme with
  | sign start sign =>
      simp only [Lexeme.toToken] at htoken
      split at htoken
      case h_1 kind hsign =>
        cases htoken
        unfold Lexeme.signKind? at hsign
        split at hsign <;> cases hsign <;> cases hkind
      case h_2 => cases htoken
  | word start word =>
      simp only [Lexeme.toToken] at htoken
      split at htoken
      case isTrue =>
        split at htoken <;> cases htoken
        cases hkind
      case isFalse hdigits =>
        cases htoken
        cases hkind
        have hne : word ≠ [] := fun hnil => hdigits (by rw [hnil]; rfl)
        rw [Nat.zero_add] at hoffset
        exact Span.fragment_append htext hne hoffset (Text.utf8ByteSize_ofList word)

/-- Tokens of a text begin and end at boundaries. -/
theorem Token.isBoundary_of_scan {text : String} {left middle right : List Token}
    (hscan : scan text = .ok (left ++ (middle ++ right))) (hmiddle : middle ≠ []) :
    isBoundary (Token.nextSpan 0 middle).offset text.toList = true ∧
      isBoundary (Reader.argumentStop 0 middle) text.toList = true := by
  obtain ⟨front, covered, back, htext, hstart, hstop, -⟩ := exists_parts hscan hmiddle
  constructor
  · rw [hstart, htext]
    exact Text.isBoundary_append front _
  · rw [hstop, htext, ← List.append_assoc]
    exact Text.isBoundary_append (front ++ covered) back

theorem MacroTable.name_of_find? {macros : MacroTable} {name : String} {entry : Macro}
    (hfind : macros.find? name = some entry) : entry.name = name := by
  unfold MacroTable.find? at hfind
  have hname := List.find?_some hfind
  exact eq_of_beq hname

/-! ## Outermost calls -/

/-- Between which parentheses one is behind some tokens: whether the last token names a
macro, and for each open parenthesis, the innermost first, whether it opened a macro call. -/
structure Nesting where
  named : Bool
  marks : List Bool

namespace Nesting

/-- Go on by one token. -/
def next (macros : MacroTable) (nesting : Nesting) (token : Token) : Nesting :=
  match token.kind with
  | .lparen => ⟨false, nesting.named :: nesting.marks⟩
  | .rparen => ⟨false, nesting.marks.tail⟩
  | .ident name => ⟨(macros.find? name).isSome, nesting.marks⟩
  | _ => ⟨false, nesting.marks⟩

/-- The parentheses that are open behind tokens. -/
def behind (macros : MacroTable) (tokens : List Token) : Nesting :=
  tokens.foldl (next macros) ⟨false, []⟩

@[simp]
theorem behind_nil (macros : MacroTable) : behind macros [] = ⟨false, []⟩ :=
  rfl

@[simp]
theorem behind_append_singleton (macros : MacroTable) (tokens : List Token) (token : Token) :
    behind macros (tokens ++ [token]) = next macros (behind macros tokens) token := by
  rw [behind, List.foldl_append]
  rfl

variable {macros : MacroTable}

/-- A token that does not end an argument opens or closes an inner parenthesis, or none. -/
theorem next_of_levelAfter {level after : Nat} {token : Token}
    (hlevel : levelAfter level token.kind = some after) {nesting : Nesting}
    {inner outer : List Bool} (hmarks : nesting.marks = inner ++ outer)
    (hinner : inner.length = level) :
    ∃ later, later.length = after ∧ (next macros nesting token).marks = later ++ outer := by
  cases hkind : token.kind with
  | lparen =>
      rw [hkind] at hlevel
      cases hlevel
      refine ⟨nesting.named :: inner, by rw [List.length_cons, hinner], ?_⟩
      simp only [next, hkind, hmarks, List.cons_append]
  | rparen =>
      rw [hkind] at hlevel
      cases inner with
      | nil =>
          subst hinner
          cases hlevel
      | cons mark inner =>
          subst hinner
          cases hlevel
          refine ⟨inner, rfl, ?_⟩
          simp only [next, hkind, hmarks, List.cons_append, List.tail_cons]
  | comma =>
      rw [hkind] at hlevel
      simp only [levelAfter] at hlevel
      split at hlevel <;> cases hlevel
      exact ⟨inner, hinner, by simp only [next, hkind, hmarks]⟩
  | _ =>
      rw [hkind] at hlevel
      cases hlevel
      exact ⟨inner, hinner, by simp only [next, hkind, hmarks]⟩

/-- Behind the arguments of a call its parenthesis is closed, and each of them begins where it
is the innermost open one.  `start` are the tokens before the argument begun. -/
theorem of_splitArguments {stop level : Nat} {part : List Token}
    {parts found : List (List Token)} {tokens rest : List Token} {trace : List Mention}
    (hsplit : Reader.splitArguments stop level part parts tokens = ⟨trace, .ok (found, rest)⟩)
    {start : List Token} {inner outer : List Bool} (hinner : inner.length = level)
    (hmarks : (behind macros (start ++ part)).marks = inner ++ outer)
    (hstart : behind macros start = ⟨false, outer⟩) :
    (∃ used, tokens = used ++ rest ∧
      (behind macros (start ++ part ++ used)).marks = outer.tail) ∧
    ∀ argument ∈ found, argument ∈ parts ∨
      ∃ before after, start ++ part ++ tokens = before ++ (argument ++ after) ∧
        behind macros before = ⟨false, outer⟩ := by
  induction tokens generalizing level part parts start inner with
  | nil => cases hsplit
  | cons token tokens ih =>
      cases hafter : levelAfter level token.kind with
      | some after =>
          rw [Reader.splitArguments_keep hafter] at hsplit
          rcases next_of_levelAfter hafter hmarks hinner with ⟨later, hlater, hnext⟩
          rw [← behind_append_singleton, List.append_assoc] at hnext
          rcases ih hsplit hlater hnext hstart with ⟨⟨used, rfl, hused⟩, hfound⟩
          refine ⟨⟨token :: used, rfl, ?_⟩, ?_⟩
          · simpa using hused
          · simpa using hfound
      | none =>
          rcases levelAfter_eq_none hafter with ⟨rfl, -⟩
          obtain rfl := List.length_eq_zero_iff.mp hinner
          rw [List.nil_append] at hmarks
          have hhere : ∀ argument ∈ parts ++ [part], argument ∈ parts ∨
              ∃ before after, start ++ part ++ token :: tokens = before ++ (argument ++ after) ∧
                behind macros before = ⟨false, outer⟩ := by
            intro argument hmem
            rcases List.mem_append.mp hmem with hearly | hlast
            · exact .inl hearly
            · rw [List.mem_singleton.mp hlast]
              exact .inr ⟨start, token :: tokens, List.append_assoc _ _ _, hstart⟩
          rcases Reader.splitArguments_end hafter hsplit with
            ⟨hkind, rfl, -, hlast⟩ | ⟨hkind, -, hrest⟩
          · refine ⟨⟨[token], rfl, ?_⟩, ?_⟩
            · rw [behind_append_singleton]
              simp only [next, hkind, hmarks]
            · rcases hlast with ⟨rfl, rfl, rfl⟩ | ⟨-, rfl⟩
              · exact fun argument hmem => absurd hmem List.not_mem_nil
              · exact hhere
          · have hcomma : behind macros (start ++ part ++ [token]) = ⟨false, outer⟩ := by
              rw [behind_append_singleton]
              simp only [next, hkind, hmarks]
            have hbegun : (behind macros (start ++ part ++ [token] ++ [])).marks = [] ++ outer := by
              rw [List.append_nil, hcomma]
              rfl
            rcases ih hrest rfl hbegun hcomma with ⟨⟨used, rfl, hused⟩, hfound⟩
            refine ⟨⟨token :: used, rfl, by simpa using hused⟩, fun argument hmem => ?_⟩
            rcases hfound argument hmem with hlisted | hlater
            · exact hhere argument hlisted
            · right
              simpa using hlater

end Nesting

namespace Macro

variable {macros : MacroTable} {text : String} {entry : Macro} {head : Token}
  {arguments : List (List Token)}

/-- Behind some tokens one is between the parentheses of no macro call. -/
def Outside (macros : MacroTable) (left : List Token) : Prop :=
  true ∉ (Nesting.behind macros left).marks

/-- The name of a macro among the tokens of a text, between the parentheses of no macro
call. -/
def NamedIn (macros : MacroTable) (text : String) (entry : Macro) (head : Token) : Prop :=
  ∃ left right, scan text = .ok (left ++ head :: right) ∧ Outside macros left ∧
    head.kind = .ident entry.name ∧ macros.find? entry.name = some entry

/-- An outermost call of a macro in a text, which begins with `head`. -/
def CalledIn (macros : MacroTable) (text : String) (entry : Macro) (head : Token)
    (arguments : List (List Token)) : Prop :=
  ∃ left call right, scan text = .ok (left ++ (head :: call ++ right)) ∧ Outside macros left ∧
    Called macros entry arguments (head :: call)

/-- A call begins with the name of the macro. -/
theorem CalledIn.namedIn (hcalled : CalledIn macros text entry head arguments) :
    NamedIn macros text entry head := by
  rcases hcalled with ⟨left, call, right, hscan, houtside, hcalled⟩
  refine ⟨left, call ++ right, hscan, houtside, ?_⟩
  cases hcalled with
  | name hkind _ hfind _ =>
      rw [← MacroTable.name_of_find? hfind] at hkind hfind
      exact ⟨hkind, hfind⟩
  | arguments hkind hfind _ _ =>
      rw [← MacroTable.name_of_find? hfind] at hkind hfind
      exact ⟨hkind, hfind⟩

/-- The name of a macro is quoted in full, from a boundary on. -/
theorem NamedIn.fragment (hnamed : NamedIn macros text entry head) :
    head.span.fragment text = entry.name ∧ isBoundary head.span.offset text.toList = true := by
  rcases hnamed with ⟨left, right, hscan, -, hkind, -⟩
  have hmem : head ∈ left ++ head :: right := List.mem_append_right left List.mem_cons_self
  have hstands : scan text = .ok (left ++ ([head] ++ right)) := hscan
  exact ⟨Token.fragment_of_scan hscan hmem hkind,
    (Token.isBoundary_of_scan hstands (List.cons_ne_nil _ _)).1⟩

/-- The arguments of a call can be cut out of its text. -/
theorem CalledIn.cut (hcalled : CalledIn macros text entry head arguments)
    {argument : List Token} (hmem : argument ∈ arguments) :
    Token.cut? text.toList argument = some (Token.covered text.toList argument) ∧
      Shown (Token.covered text.toList argument) (argument.map Token.face) := by
  rcases hcalled with ⟨left, call, right, hscan, -, hcalled⟩
  rcases stands_of_called hcalled hscan hmem with ⟨hne, before, after, hstands⟩
  exact ⟨Token.cut?_of_scan hstands hne, (shown_parts hstands hne).2.1⟩

end Macro

/-! ## Explanations -/

/-- Read a text, when macro calls may nest `depth` levels deep. -/
def Formula.read (game : Game) (macros : MacroTable) (depth : Nat) (text : String) :
    Parse Formula :=
  match scan text with
  | .ok tokens =>
      Reader.formula (.ofMacros game macros depth) text.utf8ByteSize tokens
  | .error fault => .fail (.misread fault)

theorem Formula.parse_eq_read (game : Game) (macros : MacroTable) (text : String) :
    Formula.parse game macros text =
      (Formula.read game macros maxMacroDepth text).mapFault (ParseError.inText text) := by
  unfold Formula.parse Formula.read
  cases scan text <;> rfl

/-- What the fault of a text is blamed on, when macro calls in the text may nest `depth`
levels deep. -/
inductive Fault.Explained (game : Game) (macros : MacroTable) : Nat → String → Fault → Prop where
  | own {depth : Nat} {text : String} {fault : Fault} :
      fault.issue.ofCall = false → isBoundary fault.span.offset text.toList = true →
      Explained game macros depth text fault
  | bare {depth : Nat} {text : String} {entry : Macro} {head : Token} :
      Macro.NamedIn macros text entry head → entry.params ≠ [] →
      Explained game macros depth text
        ⟨head.span, .macroNeedsArguments entry.name entry.params.length⟩
  | arity {depth : Nat} {text : String} {entry : Macro} {head : Token}
      {arguments : List (List Token)} :
      Macro.CalledIn macros text entry head arguments →
      entry.params.length ≠ arguments.length →
      Explained game macros depth text
        ⟨head.span, .macroArity entry.name entry.params.length arguments.length⟩
  | body {depth : Nat} {text : String} {entry : Macro} {head : Token}
      {arguments : List (List Token)} {fault : Fault} :
      Macro.CalledIn macros text entry head arguments →
      entry.params.length = arguments.length → scan entry.body = .error fault →
      Explained game macros (depth + 1) text ⟨head.span, .inMacro entry.name fault.issue⟩
  | expansion {depth : Nat} {text expanded : String} {entry : Macro} {head : Token}
      {arguments : List (List Token)} {body : List Token} {fault : Fault} :
      Macro.CalledIn macros text entry head arguments →
      entry.params.length = arguments.length → scan entry.body = .ok body →
      entry.expandedText? text body arguments = some expanded →
      (Formula.read game macros depth expanded).result = .error (.misread fault) →
      Explained game macros depth expanded fault →
      Explained game macros (depth + 1) text ⟨head.span, .inMacro entry.name fault.issue⟩

namespace Fault.Explained

variable {game : Game} {macros : MacroTable} {depth : Nat} {text : String} {fault : Fault}

/-- A fault that is blamed on a call has the place of the name of the macro. -/
theorem exists_name (hexplained : Explained game macros depth text fault)
    (hcall : fault.issue.ofCall = true) :
    ∃ entry head, Macro.NamedIn macros text entry head ∧ fault.span = head.span := by
  cases hexplained with
  | own hown _ =>
      rw [hown] at hcall
      cases hcall
  | bare hnamed _ => exact ⟨_, _, hnamed, rfl⟩
  | arity hcalled _ => exact ⟨_, _, hcalled.namedIn, rfl⟩
  | body hcalled _ _ => exact ⟨_, _, hcalled.namedIn, rfl⟩
  | expansion hcalled _ _ _ _ _ => exact ⟨_, _, hcalled.namedIn, rfl⟩

/-- A fault that is explained begins at a boundary. -/
theorem isBoundary (hexplained : Explained game macros depth text fault) :
    Text.isBoundary fault.span.offset text.toList = true := by
  cases hexplained with
  | own _ hboundary => exact hboundary
  | bare hnamed _ => exact hnamed.fragment.2
  | arity hcalled _ => exact hcalled.namedIn.fragment.2
  | body hcalled _ _ => exact hcalled.namedIn.fragment.2
  | expansion hcalled _ _ _ _ _ => exact hcalled.namedIn.fragment.2

end Fault.Explained

end SeedLogic
