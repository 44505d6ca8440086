import SeedLogic.Proofs.Macro.Stages

/-!
# Macro headers

A header is read stage by stage (`MacroHeader.agrees_ofTokens`): what is read is the header
that the tokens spell, and reading stops at the first token with which no header goes on.
Written down with any blanks, a header is read back (`MacroHeader.parse_exact`).
-/

namespace SeedLogic

namespace MacroHeader

/-! ## Reading -/

/-- What is read from tokens at a stage is a header that they end, or else a fault at the
first token behind which there is no stage. -/
def Agrees (stop : Nat) (stage : Stage) (tokens : List Token) :
    Except Fault MacroHeader → Prop
  | .ok header => stage.run (tokens.map Token.kind ++ [.eof]) = some (.ended header)
  | .error fault => ∃ left token right later,
      tokens ++ [⟨.eof, stop, ""⟩] = left ++ token :: right ∧
      stage.run (left.map Token.kind) = some later ∧ later.next token.kind = none ∧
      fault.span = token.span

section Agrees

variable {stop : Nat} {stage later : Stage} {token : Token} {tokens : List Token}

theorem Agrees.read {outcome : Except Fault MacroHeader}
    (hagrees : Agrees stop later tokens outcome) (hnext : stage.next token.kind = some later) :
    Agrees stop stage (token :: tokens) outcome := by
  cases outcome with
  | ok header => exact (Stage.run_cons hnext _).trans hagrees
  | error fault =>
      rcases hagrees with ⟨left, stuck, right, last, htokens, hrun, hstuck⟩
      refine ⟨token :: left, stuck, right, last, by rw [List.cons_append, htokens]; rfl, ?_, hstuck⟩
      exact (Stage.run_cons hnext _).trans hrun

theorem agrees_error {fault : Fault} (hnext : stage.next token.kind = none)
    (hspan : fault.span = token.span) : Agrees stop stage (token :: tokens) (.error fault) :=
  ⟨[], token, _, stage, rfl, rfl, hnext, hspan⟩

theorem agrees_end {fault : Fault} (hnext : stage.next .eof = none)
    (hspan : fault.span = ⟨stop, 0⟩) : Agrees stop stage [] (.error fault) :=
  ⟨[], _, [], stage, rfl, rfl, hnext, hspan⟩

/-- Behind the closing parenthesis comes the end. -/
theorem agrees_finish (header : MacroHeader) (htokens : ∀ token ∈ tokens, token.kind ≠ .eof) :
    Agrees stop (.closed header) tokens (finish stop header tokens) := by
  cases tokens with
  | nil => rfl
  | cons token tokens =>
      have hkind := htokens token List.mem_cons_self
      apply agrees_error _ rfl
      cases hcase : token.kind <;> first | rfl | exact absurd hcase hkind

/-- A new parameter is read. -/
theorem Agrees.param {outcome : Except Fault MacroHeader} {name param : String}
    {params : List String} (hagrees : Agrees stop (.listed name (params ++ [param])) tokens outcome)
    (hkind : token.kind = .ident param) (hnew : param ∉ params) :
    Agrees stop (.opened name params) (token :: tokens) outcome := by
  apply hagrees.read
  rw [hkind]
  exact Stage.next_opened hnew name

theorem agrees_parameters (name : String) {params : List String}
    (htokens : ∀ token ∈ tokens, token.kind ≠ .eof)
    (hclosing : params = [] → ∀ first ∈ tokens.head?, first.kind ≠ .rparen) :
    Agrees stop (.opened name params) tokens (parameters stop name params tokens) := by
  fun_induction parameters stop name params tokens with
  | case1 params => exact agrees_end (by cases params <;> rfl) rfl
  | case2 params token rest param hkind hmem =>
      apply agrees_error _ rfl
      rw [hkind]
      exact if_pos hmem
  | case3 params token param hkind hnew =>
      exact Agrees.param (agrees_end (by rfl) rfl) hkind hnew
  | case4 params token param hkind hnew separator rest hcomma ih =>
      rw [List.forall_mem_cons, List.forall_mem_cons] at htokens
      have hrest := ih htokens.2.2 fun hnil => absurd hnil (by simp)
      refine Agrees.param (hrest.read ?_) hkind hnew
      rw [hcomma]
      rfl
  | case5 params token param hkind hnew separator rest hparen =>
      rw [List.forall_mem_cons, List.forall_mem_cons] at htokens
      refine Agrees.param ((agrees_finish _ htokens.2.2).read ?_) hkind hnew
      rw [hparen]
      rfl
  | case6 params token param hkind hnew separator rest hcomma hparen =>
      refine Agrees.param (agrees_error ?_ rfl) hkind hnew
      cases hcase : separator.kind <;> first | rfl | contradiction
  | case7 params token rest hident =>
      apply agrees_error _ rfl
      cases hcase : token.kind with
      | ident param => exact absurd hcase (hident param)
      | rparen =>
          cases params with
          | nil => exact absurd hcase (hclosing rfl token rfl)
          | cons => rfl
      | _ => cases params <;> rfl

theorem agrees_tail (name : String) (htokens : ∀ token ∈ tokens, token.kind ≠ .eof) :
    Agrees stop (.named name) tokens (tail stop name tokens) := by
  unfold tail
  split
  case h_1 => rfl
  case h_2 opening rest =>
    rw [List.forall_mem_cons] at htokens
    split
    case h_1 hopening =>
      have hnext : Stage.next (.named name) opening.kind = some (.opened name []) := by
        rw [hopening]
        rfl
      refine Agrees.read ?_ hnext
      split
      case h_1 => exact agrees_parameters name htokens.2 fun _ => nofun
      case h_2 first behind =>
        rw [List.forall_mem_cons] at htokens
        split
        case h_1 hclosing =>
          refine (agrees_finish ⟨name, []⟩ htokens.2.2).read ?_
          rw [hclosing]
          rfl
        case h_2 hclosing =>
          apply agrees_parameters name (List.forall_mem_cons.mpr htokens.2)
          intro _ other hother
          cases hother
          exact hclosing
    case h_2 hopening =>
      apply agrees_error _ rfl
      cases hcase : opening.kind with
      | lparen => exact absurd hcase hopening
      | eof => exact absurd hcase htokens.1
      | _ => rfl

/-- Reading follows the stages of a header. -/
theorem agrees_ofTokens (htokens : ∀ token ∈ tokens, token.kind ≠ .eof) :
    Agrees stop .nothing tokens (ofTokens stop tokens) := by
  unfold ofTokens
  split
  case h_1 => exact agrees_end rfl rfl
  case h_2 token rest =>
    rw [List.forall_mem_cons] at htokens
    split
    case h_1 name hname =>
      refine (agrees_tail name htokens.2).read ?_
      rw [hname]
      rfl
    case h_2 hname =>
      apply agrees_error _ rfl
      cases hcase : token.kind with
      | ident name => exact absurd hcase (hname name)
      | _ => rfl

/-- Tokens at which reading stops have no stage behind them. -/
theorem run_eq_none_of_stuck {left right : List TokenKind} {kind : TokenKind}
    (hrun : stage.run left = some later) (hstuck : later.next kind = none) :
    stage.run (left ++ kind :: right) = none := by
  rw [Stage.run_append, hrun, Option.bind_some, Stage.run, hstuck, Option.bind_none]

theorem Agrees.eq_ok_iff {outcome : Except Fault MacroHeader}
    (hagrees : Agrees stop stage tokens outcome) {header : MacroHeader} :
    outcome = .ok header ↔
      stage.run (tokens.map Token.kind ++ [.eof]) = some (.ended header) := by
  cases outcome with
  | ok other =>
      have hrun : stage.run (tokens.map Token.kind ++ [.eof]) = some (.ended other) := hagrees
      rw [hrun, Except.ok.injEq, Option.some_inj, Stage.ended.injEq]
  | error fault =>
      rcases hagrees with ⟨left, token, right, last, htokens, hrun, hstuck, -⟩
      have hkinds : tokens.map Token.kind ++ [.eof] =
          left.map Token.kind ++ token.kind :: right.map Token.kind := by
        rw [← List.map_cons, ← List.map_append, ← htokens, List.map_append]
        rfl
      rw [hkinds, run_eq_none_of_stuck hrun hstuck]
      exact ⟨nofun, nofun⟩

end Agrees

theorem parse_of_scan_eq_error {text : String} {fault : Fault}
    (hfault : scan text = .error fault) :
    parse text = .error (fault.inText text) := by
  rw [parse, hfault]
  rfl

/-- An error of a header quotes it. -/
theorem input_of_parse {text : String} {error : SyntaxError}
    (herror : parse text = .error error) :
    error.input = text := by
  unfold parse at herror
  split at herror
  · cases herror
  · cases herror
    rfl

section Scanned

variable {text : String} {words : List Token} (hscan : scan text = .ok words)
include hscan

theorem agrees_of_scan :
    Agrees text.utf8ByteSize .nothing words (ofTokens text.utf8ByteSize words) :=
  agrees_ofTokens fun token hmem => (exact_of_scan hscan).kind_ne token hmem

theorem parse_of_scan :
    parse text = (ofTokens text.utf8ByteSize words).mapError fun fault => fault.inText text := by
  rw [parse, hscan]
  change (match ofTokens text.utf8ByteSize words with
    | .ok header => Except.ok header
    | .error fault => .error (fault.inText text)) = _
  cases ofTokens text.utf8ByteSize words <;> rfl

/-- A text is read as the header that its tokens spell. -/
theorem parse_eq_ok_iff {header : MacroHeader} :
    parse text = .ok header ↔ header.SpelledBy (words.map Token.kind ++ [.eof]) := by
  rw [← Stage.run_eq_ended_iff, ← (agrees_of_scan hscan).eq_ok_iff, parse_of_scan hscan]
  cases ofTokens text.utf8ByteSize words <;> simp [Except.mapError]

/-- A text that is no header is wrong at the first token with which no header goes on. -/
theorem exists_stuck {error : SyntaxError} (herror : parse text = .error error) :
    ∃ left token right, words ++ [Token.endOf text] = left ++ token :: right ∧
      error.span = token.span ∧ Begins (left.map Token.kind) ∧
      ¬ Begins ((left ++ [token]).map Token.kind) := by
  rw [parse_of_scan hscan] at herror
  have hagrees := agrees_of_scan hscan
  cases hread : ofTokens text.utf8ByteSize words with
  | ok header =>
      rw [hread] at herror
      cases herror
  | error fault =>
      rw [hread] at herror hagrees
      cases herror
      rcases hagrees with ⟨left, token, right, stage, htokens, hrun, hstuck, hspan⟩
      refine ⟨left, token, right, htokens, hspan, ?_, fun hbegins => ?_⟩
      · -- What stands before a token are words.
        have hwords : words = left ++ (token :: right).dropLast := by
          rw [← List.dropLast_append_of_ne_nil (List.cons_ne_nil _ _), ← htokens,
            List.dropLast_concat]
        apply begins_of_run _ hrun
        intro kind hkind
        rcases List.mem_map.mp hkind with ⟨word, hword, rfl⟩
        have hmem : word ∈ words := by
          rw [hwords]
          exact List.mem_append_left _ hword
        exact ⟨word.face, legible_of_scan hscan _ (List.mem_map_of_mem hmem), rfl⟩
      · rcases exists_run_of_begins hbegins with ⟨last, hlast⟩
        rw [List.map_append, List.map_singleton, run_eq_none_of_stuck hrun hstuck] at hlast
        cases hlast

end Scanned

/-! ## Writing headers -/

/-- The pieces of a header that is written with its parameters in parentheses. -/
def pieces (header : MacroHeader) : List String :=
  header.name :: "(" :: (header.params.intersperse "," ++ [")"])

/-- The faces of a header that is written with its parameters in parentheses. -/
def faces (header : MacroHeader) : List Face :=
  nameFace header.name :: ⟨.lparen, "("⟩ ::
    ((header.params.map nameFace).intersperse ⟨.comma, ","⟩ ++ [⟨.rparen, ")"⟩])

theorem map_intersperse {α β : Type} (change : α → β) (separator : α) (entries : List α) :
    (entries.intersperse separator).map change =
      (entries.map change).intersperse (change separator) := by
  match entries with
  | [] => rfl
  | [_] => rfl
  | first :: second :: entries =>
      rw [List.intersperse_cons_cons, List.map_cons, List.map_cons,
        map_intersperse change separator (second :: entries)]
      rfl

/-- The parameters of a header and its closing parenthesis can be written without gaps. -/
theorem legible_params {params : List String} (hparams : ∀ param ∈ params, IsName param) :
    (∀ face ∈ (params.map nameFace).intersperse ⟨.comma, ","⟩ ++ [⟨.rparen, ")"⟩],
        face.Legible) ∧
      Divided ((params.map nameFace).intersperse ⟨.comma, ","⟩ ++ [⟨.rparen, ")"⟩]) := by
  have hclosing : Face.IsSign ⟨.rparen, ")"⟩ := ⟨')', rfl, rfl⟩
  have hlegible : Face.Legible ⟨.rparen, ")"⟩ :=
    .sign (show Lexeme.signKind? ')' = some .rparen from rfl)
  match params with
  | [] => exact ⟨List.forall_mem_singleton.mpr hlegible, .singleton _⟩
  | [param] =>
      rw [List.forall_mem_singleton] at hparams
      exact ⟨List.forall_mem_cons.mpr ⟨.name hparams, List.forall_mem_singleton.mpr hlegible⟩,
        .cons_cons (.inr hclosing) (.singleton _)⟩
  | param :: second :: params =>
      rw [List.forall_mem_cons] at hparams
      have hcomma : Face.IsSign ⟨.comma, ","⟩ := ⟨',', rfl, rfl⟩
      rcases legible_params hparams.2 with ⟨hrest, hdivided⟩
      constructor
      · refine List.forall_mem_cons.mpr ⟨.name hparams.1, List.forall_mem_cons.mpr ⟨?_, hrest⟩⟩
        exact .sign (show Lexeme.signKind? ',' = some .comma from rfl)
      · exact .cons_cons (.inr hcomma) (hdivided.cons_sign hcomma)

/-- A header that is written down, with any blanks, is read back. -/
theorem parse_of_spaced {header : MacroHeader} (hname : IsName header.name)
    (hparams : ∀ param ∈ header.params, IsName param) (hnodup : header.params.Nodup)
    {text : String} (hspaced : Spaced header.pieces text.toList) :
    parse text = .ok header := by
  have hpieces : header.faces.map Face.text = header.pieces := by
    rw [faces, pieces, List.map_cons, List.map_cons, List.map_append, map_intersperse,
      List.map_map]
    simp [nameFace, Function.comp_def]
  have hkinds : header.faces.map Face.kind = .ident header.name :: .lparen ::
      ((header.params.map .ident).intersperse .comma ++ [.rparen]) := by
    rw [faces, List.map_cons, List.map_cons, List.map_append, map_intersperse, List.map_map]
    rfl
  rcases legible_params hparams with ⟨hlegible, hdivided⟩
  have hopening : Face.IsSign ⟨.lparen, "("⟩ := ⟨'(', rfl, rfl⟩
  have hshown : Shown text.toList header.faces := by
    rw [← hpieces] at hspaced
    refine hspaced.shown ?_ (.cons_cons (.inr hopening) (hdivided.cons_sign hopening))
    refine List.forall_mem_cons.mpr ⟨.name hname, List.forall_mem_cons.mpr ⟨?_, hlegible⟩⟩
    exact .sign (show Lexeme.signKind? '(' = some .lparen from rfl)
  rcases exists_scan_of_shown hshown with ⟨words, hscan, hfaces⟩
  rw [parse_eq_ok_iff hscan]
  refine ⟨hnodup, .inr ?_⟩
  have hwords : words.map Token.kind = header.faces.map Face.kind := by
    rw [← hfaces, List.map_map]
    rfl
  rw [hwords, hkinds]
  simp

/-- Headers are read exactly as they are spelled, and what is no header is wrong at the
first token with which no header goes on. -/
theorem parse_exact (text : String) :
    (∀ header, parse text = .ok header ↔
      ∃ tokens, tokenize text = .ok tokens ∧ header.SpelledBy (tokens.map Token.kind)) ∧
    (∀ header : MacroHeader, IsName header.name → (∀ param ∈ header.params, IsName param) →
      header.params.Nodup → Spaced header.pieces text.toList → parse text = .ok header) ∧
    ((∀ header, parse text ≠ .ok header) → ∃ error, parse text = .error error ∧
      error.input = text ∧ (∀ other, tokenize text = .error other → error = other) ∧
      ∀ tokens, tokenize text = .ok tokens → ∃ left token right,
        tokens = left ++ token :: right ∧ error.span = token.span ∧
          Begins (left.map Token.kind) ∧ ¬ Begins ((left ++ [token]).map Token.kind)) := by
  refine ⟨fun header => ?_, fun header hname hparams hnodup hspaced =>
    parse_of_spaced hname hparams hnodup hspaced, fun hnone => ?_⟩
  · constructor
    · intro hparse
      cases hscan : scan text with
      | ok words =>
          refine ⟨_, tokenize_eq_ok_iff.mpr hscan, ?_⟩
          rw [List.map_append]
          exact (parse_eq_ok_iff hscan).mp hparse
      | error fault =>
          rw [parse_of_scan_eq_error hscan] at hparse
          cases hparse
    · rintro ⟨tokens, htokens, hspelled⟩
      rcases exists_scan_of_tokenize htokens with ⟨words, rfl, hscan⟩
      rw [List.map_append] at hspelled
      exact (parse_eq_ok_iff hscan).mpr hspelled
  · cases hparse : parse text with
    | ok header => exact absurd hparse (hnone header)
    | error error =>
        refine ⟨error, rfl, input_of_parse hparse, fun other hother => ?_, fun tokens htokens => ?_⟩
        · rcases exists_scan_of_tokenize_eq_error hother with ⟨fault, rfl, hscan⟩
          rw [parse_of_scan_eq_error hscan] at hparse
          cases hparse
          rfl
        · rcases exists_scan_of_tokenize htokens with ⟨words, rfl, hscan⟩
          exact exists_stuck hscan hparse

end MacroHeader

end SeedLogic
