import SeedLogic.Proofs.Formula.WritingOut

/-!
# Reading slice by slice

A text can also be read with every stretch of it that is needed cut out at byte places: the
words, the arguments of calls, the tokens of macro bodies, and what an error quotes.  A macro
call is then expanded to a text, which is read like any other (`Sliced.expansion`).  Where a
place is no character boundary there is nothing to cut, and the reading ends in a `crash`,
whatever that may be.

This module has the reading, and that nothing it cuts is off a boundary: neither words
(`Sliced.tokens_eq`) nor arguments (`Token.exists_cut`) nor bodies
(`Macro.exists_expandedText`).
-/

namespace SeedLogic

open Text (byteWidth isBoundary)

/-- The text that some tokens cover, cut out at the places of the first and the last. -/
def Token.cut? (text : List Char) (tokens : List Token) : Option (List Char) :=
  Text.cut? (Token.nextSpan 0 tokens).offset (Reader.argumentStop 0 tokens) text

namespace Macro

/-- The text of an argument in the place of a parameter, cut out. -/
def argumentText? (text : List Char) (argument : List Token) : Option (List Char) :=
  (Token.cut? text argument).map fun covered =>
    if 1 < argument.length then '(' :: covered ++ [')'] else covered

/-- The text that stands for a token of a body: of an argument, or of the token itself. -/
def piece? (text body : List Char) (bindings : List (String × List Token)) (token : Token) :
    Option (List Char) :=
  match token.kind with
  | .ident name =>
      match bindings.lookup name with
      | some argument => argumentText? text argument
      | none => Token.cut? body [token]
  | _ => Token.cut? body [token]

/-- The text that a call is expanded to: the pieces for the tokens of the body, with blanks
between them. -/
def expandedText? (entry : Macro) (text : String) (body : List Token)
    (arguments : List (List Token)) : Option String :=
  (body.mapM (piece? text.toList entry.body.toList (entry.params.zip arguments))).map
    fun pieces => String.ofList ([' '].intercalate pieces)

end Macro

/-! ## The reading -/

namespace Sliced

variable (crash : ParseError)

/-- An error of a text, whose fault is quoted. -/
def quoted (text : String) : ParseError → ParseError
  | .misread fault =>
      if text.utf8ByteSize ≤ fault.span.offset ∨ isBoundary fault.span.offset text.toList then
        .misread fault
      else crash
  | error => error

/-- The tokens of a text, whose words are cut out. -/
def tokens (text : String) : Except ParseError (List Token) :=
  if ∀ lexeme ∈ Lexeme.split 0 text.toList,
      Text.cut? lexeme.offset lexeme.stop text.toList = some lexeme.chars then
    (scan text).mapError fun fault => quoted crash text (.misread fault)
  else .error crash

/-- A call cuts out its arguments, once it has found them. -/
def cutArguments (text : List Char) (stop : Nat) : List Token → Parse Unit
  | ⟨.ident _, _, _⟩ :: ⟨.lparen, _, _⟩ :: behind =>
      match (Reader.arguments stop behind).result with
      | .ok (parts, _) =>
          if ∀ part ∈ parts, (Token.cut? text part).isSome then pure () else .fail crash
      | .error _ => pure ()
  | _ => pure ()

/-- An operand without `!`. -/
def operand (text : List Char) (dialect : Dialect) (inner : Nat → Reader Formula) (stop : Nat) :
    Reader Formula :=
  fun tokens => do
    cutArguments crash text stop tokens
    Reader.operand dialect inner stop tokens

/-- A disjunction. -/
def disjunction (text : List Char) (dialect : Dialect) :
    (depth : Nat) → (stop : Nat) → Reader Formula
  | 0, stop, tokens => .failAt (Token.nextSpan stop tokens) .unexpectedEnd
  | depth + 1, stop, tokens =>
      Reader.series .or .any stop
        (Reader.series .and .all stop
          (Reader.negated (operand crash text dialect (disjunction text dialect depth) stop)))
        tokens

/-- A list of tokens as one formula. -/
def formula (text : List Char) (dialect : Dialect) (stop : Nat) (tokens : List Token) :
    Parse Formula :=
  Reader.whole (disjunction crash text dialect (tokens.length + 1) stop) tokens

/-- What a call in a text stands for: a macro, the token of its name and its arguments. -/
abbrev Expansion :=
  String → Macro → Token → List (List Token) → Parse Formula

/-- A text as one formula, when calls in it stand for what `expand` says. -/
def reading (game : Game) (macros : MacroTable) (expand : Expansion) (text : String) :
    Parse Formula :=
  match tokens crash text with
  | .ok tokens =>
      (formula crash text.toList ⟨game, macros, expand text⟩ text.utf8ByteSize tokens).mapFault
        (quoted crash text)
  | .error error => .fail error

/-- The formula of a macro call, whose text `deeper` reads. -/
def inline (deeper : String → Parse Formula) : Expansion :=
  fun text entry head arguments =>
    if entry.params.length = arguments.length then
      match tokens crash entry.body with
      | .ok body =>
          match entry.expandedText? text body arguments with
          | some expanded => (deeper expanded).mapFault (ParseError.atCall head.span entry.name)
          | none => .fail crash
      | .error error => .fail (error.atCall head.span entry.name)
    else .failAt head.span (.macroArity entry.name entry.params.length arguments.length)

/-- The formula of a macro call, when calls may nest `depth` levels deep. -/
def expansion (game : Game) (macros : MacroTable) : (depth : Nat) → Expansion
  | 0, _, entry, _, _ => .fail (.recursiveMacro entry.name)
  | depth + 1, text, entry, head, arguments =>
      inline crash (reading crash game macros (expansion game macros depth)) text entry head
        arguments

/-- Read a requirement text as a formula, slice by slice. -/
def parse (game : Game) (macros : MacroTable) (text : String) :
    Recorded Mention LogicError Formula :=
  (reading crash game macros (expansion crash game macros maxMacroDepth) text).mapFault
    (ParseError.inText text)

end Sliced

/-! ## Words -/

namespace Lexeme

/-- A lexeme stands in its text. -/
theorem exists_of_mem_split {place : Nat} {text : List Char} {lexeme : Lexeme}
    (hmem : lexeme ∈ split place text) :
    ∃ left right, text = left ++ (lexeme.chars ++ right) ∧
      lexeme.offset = place + byteWidth left := by
  induction text generalizing place lexeme with
  | nil => cases hmem
  | cons char text ih =>
      have hlater : ∀ {width}, char.utf8Size = width → lexeme ∈ split (place + width) text →
          ∃ left right, char :: text = left ++ (lexeme.chars ++ right) ∧
            lexeme.offset = place + byteWidth left := by
        rintro _ rfl hrest
        rcases ih hrest with ⟨left, right, rfl, hoffset⟩
        refine ⟨char :: left, right, rfl, ?_⟩
        rw [hoffset, Text.byteWidth_cons, Nat.add_assoc]
      rcases split_cases char with hsplit | hsplit | ⟨-, hwidth, hsplit⟩
      · rw [hsplit] at hmem
        exact hlater rfl hmem
      · rw [hsplit] at hmem
        rcases List.mem_cons.mp hmem with rfl | hrest
        · exact ⟨[], text, rfl, rfl⟩
        · exact hlater rfl hrest
      · rw [hsplit] at hmem
        rcases attach_eq place char (split (place + 1) text) with
          ⟨word, others, hrest, hattach⟩ | ⟨-, hattach⟩
        · rw [hattach] at hmem
          rcases List.mem_cons.mp hmem with rfl | hothers
          · -- The word that the character joins begins right behind it.
            have hword : Lexeme.word (place + 1) word ∈ split (place + 1) text := by
              rw [hrest]
              exact List.mem_cons_self
            rcases ih hword with ⟨left, right, rfl, hoffset⟩
            have hwidth : byteWidth left = 0 := Nat.left_eq_add.mp hoffset
            obtain rfl := Text.eq_nil_of_byteWidth hwidth
            exact ⟨[], right, rfl, rfl⟩
          · apply hlater hwidth
            rw [hrest]
            exact List.mem_cons_of_mem _ hothers
        · rw [hattach] at hmem
          rcases List.mem_cons.mp hmem with rfl | hrest
          · exact ⟨[], text, rfl, rfl⟩
          · exact hlater hwidth hrest

/-- A lexeme can be cut out of its text. -/
theorem cut?_of_mem_split {text : List Char} {lexeme : Lexeme} (hmem : lexeme ∈ split 0 text) :
    Text.cut? lexeme.offset lexeme.stop text = some lexeme.chars := by
  rcases exists_of_mem_split hmem with ⟨left, right, rfl, hoffset⟩
  rw [Nat.zero_add] at hoffset
  rw [stop, hoffset, ← Text.byteWidth_append]
  exact Text.cut?_append left lexeme.chars right

/-- A lexeme that is no token is a fault at its own place. -/
theorem offset_of_toToken_eq_error {lexeme : Lexeme} {fault : Fault}
    (hfault : lexeme.toToken = .error fault) : fault.span.offset = lexeme.offset := by
  cases lexeme with
  | word start word =>
      simp only [toToken] at hfault
      split at hfault
      · split at hfault <;> cases hfault
        rfl
      · cases hfault
  | sign start sign =>
      simp only [toToken] at hfault
      split at hfault <;> cases hfault
      rfl

end Lexeme

/-- A text that is not scanned has its fault at a boundary. -/
theorem isBoundary_of_scan {text : String} {fault : Fault} (hscan : scan text = .error fault) :
    isBoundary fault.span.offset text.toList = true := by
  rcases Outcome.exists_of_mapM_eq_error hscan with ⟨lexeme, hmem, hfault⟩
  rcases Lexeme.exists_of_mem_split hmem with ⟨left, right, htext, hoffset⟩
  rw [Lexeme.offset_of_toToken_eq_error hfault, hoffset, Nat.zero_add, htext]
  exact Text.isBoundary_append left _

namespace Sliced

variable {crash : ParseError}

/-- A fault at a boundary is quoted. -/
theorem quoted_misread {text : String} {fault : Fault}
    (hboundary : isBoundary fault.span.offset text.toList = true) :
    quoted crash text (.misread fault) = .misread fault :=
  if_pos (.inr hboundary)

/-- Cutting out the words of a text gives its tokens. -/
theorem tokens_eq (text : String) : tokens crash text = (scan text).mapError .misread := by
  rw [tokens, if_pos fun lexeme hmem => Lexeme.cut?_of_mem_split hmem]
  cases hscan : scan text with
  | ok tokens => rfl
  | error fault => exact congrArg Except.error (quoted_misread (isBoundary_of_scan hscan))

end Sliced

/-! ## Arguments -/

/-- Tokens of a text that stand together can be cut out of it. -/
theorem Token.cut?_of_scan {text : String} {left middle right : List Token}
    (hscan : scan text = .ok (left ++ (middle ++ right))) (hmiddle : middle ≠ []) :
    Token.cut? text.toList middle = some (Token.covered text.toList middle) := by
  obtain ⟨front, covered, back, htext, hstart, hstop, -⟩ := exists_parts hscan hmiddle
  rw [Token.cut?, Token.covered, hstart, hstop, htext, Text.cut?_append, Text.slice_append]

/-- The arguments that are found behind a parenthesis stand in the text. -/
theorem Reader.infix_of_arguments {stop : Nat} {tokens : List Token} {parts : List (List Token)}
    {rest : List Token} (hfound : (arguments stop tokens).result = .ok (parts, rest))
    {part : List Token} (hmem : part ∈ parts) : part ≠ [] ∧ part <:+: tokens := by
  have hsplit : splitArguments stop 0 [] [] tokens = ⟨_, .ok (parts, rest)⟩ :=
    Recorded.ext rfl hfound
  rcases infix_of_splitArguments hsplit hmem with hnone | hinfix
  · cases hnone
  · exact hinfix

/-- No argument of a call is cut out off a boundary. -/
theorem Sliced.cutArguments_eq {crash : ParseError} {text : String} {all tokens : List Token}
    (hscan : scan text = .ok all) (htokens : tokens <:+: all) (stop : Nat) :
    cutArguments crash text.toList stop tokens = pure () := by
  unfold cutArguments
  split
  case h_1 offset word opening sign behind =>
    split
    case h_1 parts rest hfound =>
      apply if_pos
      intro part hmem
      rcases Reader.infix_of_arguments hfound hmem with ⟨hne, hbehind⟩
      have hstands : part <:+: all := hbehind.trans
        (((List.suffix_cons _ _).trans (List.suffix_cons _ _)).isInfix.trans htokens)
      rcases hstands with ⟨left, right, rfl⟩
      rw [List.append_assoc] at hscan
      rw [Token.cut?_of_scan hscan hne]
      rfl
    case h_2 => rfl
  case h_2 => rfl

/-! ## Bodies -/

/-- Texts with blanks between them show what each of them shows. -/
theorem Shown.intercalate {pieces : List (List Char)} {faces : List (List Face)}
    (hpieces : List.Forall₂ Shown pieces faces) :
    Shown ([' '].intercalate pieces) faces.flatten := by
  induction hpieces with
  | nil => exact .nil
  | @cons piece first pieces others hfirst hrest ih =>
      cases hrest with
      | nil =>
          rw [List.intercalate_singleton, List.flatten_singleton]
          exact hfirst
      | cons =>
          rw [List.intercalate_cons_cons, List.flatten_cons, List.append_assoc]
          exact hfirst.append ih.cons_blank (apart_of_first rfl)

namespace Macro

variable {text : String} {arguments : List (List Token)}

/-- An argument that can be cut out can be written for a parameter. -/
theorem argumentText?_eq {argument : List Token}
    (hcut : Token.cut? text.toList argument = some (Token.covered text.toList argument)) :
    argumentText? text.toList argument = some (argumentText text.toList argument) := by
  rw [argumentText?, hcut, Option.map_some, argumentText]

section Arguments

variable {entry : Macro} {body : List Token} (hbody : scan entry.body = .ok body)
  (harguments : ∀ argument ∈ arguments,
    Token.cut? text.toList argument = some (Token.covered text.toList argument) ∧
      Shown (Token.covered text.toList argument) (argument.map Token.face))
include hbody harguments

/-- The piece for a token of the body can be cut out, and shows what stands for the token. -/
theorem exists_piece {token : Token} (hmem : token ∈ body) :
    ∃ piece, piece? text.toList entry.body.toList (entry.params.zip arguments) token =
        some piece ∧
      Shown piece (Face.instantiate
        (entry.params.zip (arguments.map (List.map Token.face))) token.face) := by
  rcases List.append_of_mem hmem with ⟨left, right, rfl⟩
  have hne : [token] ≠ [] := List.cons_ne_nil _ _
  have hscan : scan entry.body = .ok (left ++ ([token] ++ right)) := hbody
  have hcut := Token.cut?_of_scan hscan hne
  have hshown := (shown_parts hscan hne).2.1
  unfold piece? Face.instantiate
  rw [Token.kind_face]
  cases token.kind with
  | ident name =>
      simp only [lookup_zip_map]
      cases hlookup : (entry.params.zip arguments).lookup name with
      | none => exact ⟨_, hcut, hshown⟩
      | some argument =>
          have hargument := harguments argument (mem_of_lookup_zip hlookup)
          exact ⟨_, argumentText?_eq hargument.1, shown_argumentText hargument.2⟩
  | _ => exact ⟨_, hcut, hshown⟩

/-- A call is expanded to a text, which shows the body with the faces of the arguments. -/
theorem exists_expandedText :
    ∃ expanded, entry.expandedText? text body arguments = some expanded ∧
      Shown expanded.toList (Face.substitute
        (entry.params.zip (arguments.map (List.map Token.face))) (body.map Token.face)) := by
  rcases Outcome.exists_mapM_some fun token hmem => exists_piece hbody harguments hmem with
    ⟨pieces, hpieces, hshown⟩
  refine ⟨_, by rw [expandedText?, hpieces, Option.map_some], ?_⟩
  rw [String.toList_ofList, Face.substitute, List.flatMap, List.map_map]
  exact Shown.intercalate (List.forall₂_map_right_iff.mpr hshown)

end Arguments

end Macro

end SeedLogic
