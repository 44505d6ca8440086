import SeedLogic.Proofs.Formula.Rereading

/-!
# Where syntax errors point

A macro call stands for the same formula whether its arguments are put into the body as
tokens or as texts (`expansions_alike`).  So a text is read slice by slice as it is read at
all, and no slice is off a character boundary (`Sliced.reading_eq`).  Whatever is wrong with
a text, the error points into the text itself (`Requirement.parse_points_into`).
-/

namespace SeedLogic

open Text (Span isBoundary)

variable {game : Game} {macros : MacroTable} {depth : Nat} {crash : ParseError}

/-! ## Texts as copies of themselves -/

/-- A text that is not scanned has a fault of its own. -/
theorem ofCall_of_scan {text : String} {fault : Fault} (hscan : scan text = .error fault) :
    fault.issue.ofCall = false := by
  rcases Outcome.exists_of_mapM_eq_error hscan with ⟨lexeme, -, hfault⟩
  cases lexeme with
  | word start word =>
      simp only [Lexeme.toToken] at hfault
      split at hfault
      · split at hfault <;> cases hfault
        rfl
      · cases hfault
  | sign start sign =>
      simp only [Lexeme.toToken] at hfault
      split at hfault <;> cases hfault
      rfl

namespace Copy

variable {copy : Copy game macros depth}

/-- The end of the text is copied from itself, where places count. -/
theorem end_stops {stop : Nat} (hstop : copy.literal → stop = copy.text.utf8ByteSize) :
    copy.Stops stop copy.text.utf8ByteSize where
  boundary := Text.isBoundary_utf8ByteSize copy.text
  eq hliteral := by rw [hstop hliteral]

/-- The tokens of a whole text are between no parentheses. -/
theorem Same.of_all {tokens : List Token} (hsame : copy.Same tokens copy.all) :
    copy.Of True tokens copy.all := by
  refine ⟨hsame, [], [], ?_, ?_, fun _ => rfl⟩
  · rw [List.nil_append, List.append_nil]
  · rw [Macro.Outside, Nesting.behind_nil]
    exact List.not_mem_nil

/-- The faults of the text are explained. -/
theorem explained {α : Type} {left right : Parse α} (halike : copy.Alike Eq left right)
    {fault : Fault} (hfault : right.result = .error (.misread fault)) :
    fault.Explained game macros depth copy.text := by
  cases halike with
  | ok => cases hfault
  | error herrors =>
      cases hfault
      cases herrors with
      | misread _ _ hexplained => exact hexplained

/-- Every fault of the text can be quoted. -/
theorem mapFault_quoted {α : Type} {left right : Parse α} (halike : copy.Alike Eq left right) :
    right.mapFault (Sliced.quoted crash copy.text) = right := by
  cases halike with
  | ok => rfl
  | error herrors =>
      cases herrors with
      | misread _ _ hexplained =>
          rw [Recorded.mapFault, Except.mapError, Sliced.quoted_misread hexplained.isBoundary]
      | _ => rfl

end Copy

theorem map_faces_of_forall₂ {copy : Copy game macros depth} {parts parts' : List (List Token)}
    (hparts : List.Forall₂ copy.Within parts parts') :
    parts.map (List.map Token.face) = parts'.map (List.map Token.face) := by
  induction hparts with
  | nil => rfl
  | cons hpart _ ih => rw [List.map_cons, List.map_cons, hpart.faces, ih]

/-- The tokens of a body, with the tokens of arguments in the places of the parameters, are a
copy of the text that the call is expanded to. -/
theorem Copy.exists_expansion {copy : Copy game macros depth} (inner : Nat) {entry : Macro}
    {head : Token} {parts parts' : List (List Token)}
    (hparts : List.Forall₂ copy.Within parts parts')
    (hcalled : Macro.CalledIn macros copy.text entry head parts') {body : List Token}
    (hbody : scan entry.body = .ok body) :
    ∃ expansion : Copy game macros inner, ¬ expansion.literal ∧
      entry.expandedText? copy.text body parts' = some expansion.text ∧
      expansion.Same (Macro.substitute (entry.params.zip parts) body) expansion.all := by
  obtain ⟨expanded, hexpanded, hshown⟩ := Macro.exists_expandedText hbody
    fun argument hmem => hcalled.cut hmem
  rcases exists_scan_of_shown hshown with ⟨all, hscan, hfaces⟩
  refine ⟨⟨expanded, all, hscan, False⟩, id, hexpanded, ?_, False.elim⟩
  rw [Macro.map_face_substitute, map_faces_of_forall₂ hparts]
  exact hfaces.symm

/-! ## Reading slice by slice -/

namespace Sliced

/-- Macros stand for the same in texts and in copies of them. -/
abbrev Agrees (crash : ParseError) (game : Game) (macros : MacroTable) (depth : Nat) : Prop :=
  ∀ copy : Copy game macros depth, copy.Expansions (SeedLogic.expansion game macros depth)
    (expansion crash game macros depth copy.text)

variable (hagrees : Agrees crash game macros depth)
include hagrees

/-- A text that is scanned is read like any copy of its tokens. -/
theorem formula_alike (copy : Copy game macros depth) {tokens : List Token} (stop : Nat)
    (hstop : copy.literal → stop = copy.text.utf8ByteSize) (hsame : copy.Same tokens copy.all) :
    copy.Alike Eq (Reader.formula (.ofMacros game macros depth) stop tokens)
      (reading crash game macros (expansion crash game macros depth) copy.text) := by
  have halike := copy.formula_alike (hagrees copy) crash (Copy.end_stops hstop) hsame.of_all
  unfold reading
  rw [tokens_eq, copy.scan_eq, Except.mapError]
  dsimp only
  rw [Copy.mapFault_quoted halike]
  exact halike

/-- A text is read slice by slice as it is read at all. -/
theorem reading_eq (text : String) :
    reading crash game macros (expansion crash game macros depth) text =
      Formula.read game macros depth text := by
  cases hscan : scan text with
  | error fault =>
      unfold reading Formula.read
      rw [tokens_eq, hscan]
      rfl
  | ok all =>
      have halike := formula_alike hagrees ⟨text, all, hscan, True⟩ _ (fun _ => rfl)
        ⟨rfl, fun _ => rfl⟩
      unfold Formula.read
      rw [hscan]
      apply Eq.symm (halike.eq _)
      intro error other herrors
      cases herrors with
      | @misread fault other hissue hspan _ =>
          cases fault
          cases other
          cases hissue
          cases hspan trivial
          rfl
      | _ => rfl

/-- The faults of a text are explained. -/
theorem explained_of_read {text : String} {fault : Fault}
    (hfault : (Formula.read game macros depth text).result = .error (.misread fault)) :
    fault.Explained game macros depth text := by
  cases hscan : scan text with
  | error other =>
      unfold Formula.read at hfault
      rw [hscan] at hfault
      cases hfault
      exact .own (ofCall_of_scan hscan) (isBoundary_of_scan hscan)
  | ok all =>
      have halike := formula_alike hagrees ⟨text, all, hscan, True⟩ _ (fun _ => rfl)
        ⟨rfl, fun _ => rfl⟩
      rw [← reading_eq hagrees] at hfault
      exact Copy.explained halike hfault

/-- A call that is expanded one level deeper stands for the same in a copy. -/
theorem inline_alike (copy : Copy game macros (depth + 1)) :
    copy.Expansions
      (Macro.inline (Reader.formula (.ofMacros game macros depth) 0))
      (inline crash (reading crash game macros (expansion crash game macros depth)) copy.text) := by
  intro entry head other parts parts' hat hparts hcalled
  unfold Macro.inline inline
  rw [hparts.length_eq, tokens_eq]
  split
  case isFalse hlength => exact .fail (.misread rfl hat.eq (.arity hcalled hlength))
  case isTrue hlength =>
    cases hbody : scan entry.body with
    | error fault => exact .fail (.misread rfl hat.eq (.body hcalled hlength hbody))
    | ok body =>
        obtain ⟨inner, hliteral, hexpanded, hsame⟩ :=
          Copy.exists_expansion depth hparts hcalled hbody
        have halike := formula_alike hagrees inner 0 (fun htrue => absurd htrue hliteral) hsame
        rw [Except.mapError]
        dsimp only
        rw [hexpanded]
        apply halike.errors_right.mapFault
        rintro error fault ⟨herrors, hresult⟩
        cases herrors with
        | misread hissue _ hexplained =>
            rw [reading_eq hagrees] at hresult
            exact .misread (congrArg (SyntaxIssue.inMacro entry.name) hissue) hat.eq
              (.expansion hcalled hlength hbody hexpanded hresult hexplained)
        | unknownFunction name => exact .unknownFunction name
        | recursiveMacro name => exact .recursiveMacro name

end Sliced

/-- Macros stand for the same in texts and in copies of them, however deeply calls nest. -/
theorem Sliced.agrees (crash : ParseError) (game : Game) (macros : MacroTable) (depth : Nat) :
    Agrees crash game macros depth := by
  induction depth with
  | zero =>
      intro copy entry head other parts parts' _ _ _
      exact .fail (.recursiveMacro entry.name)
  | succ depth ih => exact inline_alike ih

/-! ## Errors -/

/-- Whatever is wrong inside a call is reported at the name of the macro. -/
theorem expansion_eq_error {entry : Macro} {head : Token} {arguments : List (List Token)}
    {fault : Fault}
    (hfault : (expansion game macros depth entry head arguments).result =
      .error (.misread fault)) : fault.span = head.span ∧ fault.issue.ofCall = true := by
  cases depth with
  | zero => cases hfault
  | succ depth =>
      simp only [expansion, Macro.inline] at hfault
      split at hfault
      · split at hfault
        · rw [Recorded.result_mapFault] at hfault
          generalize Recorded.result _ = result at hfault
          cases result with
          | ok formula => cases hfault
          | error error =>
              cases error <;> cases hfault
              exact ⟨rfl, rfl⟩
        · cases hfault
          exact ⟨rfl, rfl⟩
      · cases hfault
        exact ⟨rfl, rfl⟩

/-- An error points into a text: it quotes what stands at a boundary of the text, or says
that the text ends there.  When a macro call is blamed, it stands at the name of the macro in
an outermost call and quotes that name, and the message begins with the macros in which the
cause is found, the outermost first. -/
structure SyntaxError.PointsInto (game : Game) (macros : MacroTable) (text : String)
    (error : SyntaxError) : Prop where
  input : error.input = text
  quotes : Span.Quotes text error.offset error.fragment
  explained : Fault.Explained game macros maxMacroDepth text ⟨error.span, error.issue⟩
  name : error.issue.ofCall = true → ∃ entry head, Macro.NamedIn macros text entry head ∧
    error.offset = head.offset ∧ error.fragment = entry.name
  caller : ∀ name ∈ error.issue.callers.head?, error.fragment = name
  message : error.issue.message =
    (error.issue.callers.map SyntaxIssue.mark).foldr (· ++ ·) error.issue.cause.message

/-- The macro that a message names first is the one that is quoted. -/
theorem Fault.Explained.fragment_eq_of_callers {text : String} {fault : Fault}
    (hexplained : Explained game macros depth text fault) {name : String}
    (hname : name ∈ fault.issue.callers.head?) : fault.span.fragment text = name := by
  cases hexplained with
  | own hown _ =>
      rw [SyntaxIssue.callers_eq_nil hown] at hname
      cases hname
  | bare => cases hname
  | arity => cases hname
  | body hcalled _ _ =>
      cases hname
      exact hcalled.namedIn.fragment.1
  | expansion hcalled _ _ _ _ _ =>
      cases hname
      exact hcalled.namedIn.fragment.1

/-- A fault that is explained makes an error that points into the text. -/
theorem Fault.Explained.pointsInto {text : String} {fault : Fault}
    (hexplained : Explained game macros maxMacroDepth text fault) :
    (fault.inText text).PointsInto game macros text where
  input := rfl
  quotes := Span.quotes_fragment hexplained.isBoundary
  explained := hexplained
  name hcall := by
    rcases hexplained.exists_name hcall with ⟨entry, head, hnamed, hspan⟩
    refine ⟨entry, head, hnamed, congrArg Span.offset hspan, ?_⟩
    rw [← hnamed.fragment.1, ← hspan]
    rfl
  caller _ hname := hexplained.fragment_eq_of_callers hname
  message := fault.issue.message_eq

/-- The syntax errors of a text point into the text, those of macro calls at the names of the
macros, and no slice of any text that is read on the way is off a character boundary. -/
theorem Requirement.parse_points_into (game : Game) (macros : MacroTable) (symbols : Symbols)
    (text : String) :
    (∀ error, (Requirement.parse game macros symbols text).1 = .error (.badSyntax error) →
      error.PointsInto game macros text) ∧
    (∀ depth entry head arguments fault,
      (expansion game macros depth entry head arguments).result = .error (.misread fault) →
      fault.span = head.span ∧ fault.issue.ofCall = true) ∧
    ∀ crash, Sliced.parse crash game macros text = Formula.parse game macros text := by
  refine ⟨fun error herror => ?_, fun _ _ _ _ _ => expansion_eq_error, fun crash => ?_⟩
  · have hparse : (Formula.parse game macros text).result = .error (.badSyntax error) := by
      unfold Requirement.parse at herror
      dsimp only at herror
      cases hresult : (Formula.parse game macros text).result with
      | ok formula =>
          rw [hresult] at herror
          cases herror
      | error other =>
          rw [hresult] at herror
          cases herror
          rfl
    rw [Formula.parse_eq_read, Recorded.result_mapFault] at hparse
    cases hread : (Formula.read game macros maxMacroDepth text).result with
    | ok formula =>
        rw [hread] at hparse
        cases hparse
    | error fault =>
        rw [hread] at hparse
        cases fault <;> cases hparse
        have hagrees := Sliced.agrees (.recursiveMacro "") game macros maxMacroDepth
        exact (Sliced.explained_of_read hagrees hread).pointsInto
  · rw [Sliced.parse, Sliced.reading_eq (Sliced.agrees crash game macros maxMacroDepth),
      Formula.parse_eq_read]

/-- A macro whose body is not closed, and one whose body calls it. -/
def brokenMacros : MacroTable :=
  ⟨[⟨"broken", [], "has(A"⟩, ⟨"wrap", ["x"], "x & broken"⟩]⟩

/-- An error two macros deep points at the outermost call. -/
theorem Requirement.parse_points_into_wrap :
    ∃ error, (Requirement.parse .oot brokenMacros .empty "C | wrap(D)").1 =
        .error (.badSyntax error) ∧
      error.PointsInto .oot brokenMacros "C | wrap(D)" ∧ error.offset = 4 ∧
      error.fragment = "wrap" ∧ error.issue.callers = ["wrap", "broken"] ∧
      error.issue.cause = .unclosedArguments := by
  have hparse : (Requirement.parse .oot brokenMacros .empty "C | wrap(D)").1 =
      .error (.badSyntax ⟨"C | wrap(D)", ⟨4, 4⟩,
        .inMacro "wrap" (.inMacro "broken" .unclosedArguments)⟩) := rfl
  have hpoints := (parse_points_into .oot brokenMacros .empty "C | wrap(D)").1 _ hparse
  exact ⟨_, hparse, hpoints, rfl, rfl, rfl, rfl⟩

end SeedLogic
