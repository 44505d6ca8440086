import Mathlib.Data.List.Nodup
import SeedLogic.Proofs.Token.Spacing

/-!
# Stages of macro headers

Which tokens are a macro header is said without a reader (`MacroHeader.SpelledBy`): a name
alone, or a name and distinct parameters in parentheses.  How far a header has been read is
a `Stage`.  From left to right, the stages end with just the tokens that spell a header
(`Stage.run_eq_ended_iff`), and each of them can be completed to a header
(`Stage.exists_ending`).
-/

namespace SeedLogic

namespace MacroHeader

/-- The kinds of the tokens of a header, with the end mark behind it. -/
def SpelledBy (header : MacroHeader) (kinds : List TokenKind) : Prop :=
  header.params.Nodup ∧
    (header.params = [] ∧ kinds = [.ident header.name, .eof] ∨
      kinds = .ident header.name :: .lparen ::
        ((header.params.map .ident).intersperse .comma ++ [.rparen, .eof]))

/-- Tokens of these kinds are a beginning of a header, which some text goes on with. -/
def Begins (kinds : List TokenKind) : Prop :=
  ∃ text tokens header, tokenize text = .ok tokens ∧ SpelledBy header (tokens.map Token.kind) ∧
    kinds <+: tokens.map Token.kind

theorem SpelledBy.eof_mem {header : MacroHeader} {kinds : List TokenKind}
    (hspelled : header.SpelledBy kinds) : .eof ∈ kinds := by
  rcases hspelled with ⟨-, ⟨-, rfl⟩ | rfl⟩ <;> simp

/-! ## Stages -/

/-- How far a header has been read. -/
inductive Stage where
  | nothing
  | named (name : String)
  | opened (name : String) (params : List String)
  | listed (name : String) (params : List String)
  | closed (header : MacroHeader)
  | ended (header : MacroHeader)

namespace Stage

/-- The stage behind one more token. -/
def next : Stage → TokenKind → Option Stage
  | .nothing, .ident name => some (.named name)
  | .named name, .lparen => some (.opened name [])
  | .named name, .eof => some (.ended ⟨name, []⟩)
  | .opened name params, .ident param =>
      if param ∈ params then none else some (.listed name (params ++ [param]))
  | .opened name [], .rparen => some (.closed ⟨name, []⟩)
  | .listed name params, .comma => some (.opened name params)
  | .listed name params, .rparen => some (.closed ⟨name, params⟩)
  | .closed header, .eof => some (.ended header)
  | _, _ => none

theorem next_opened {params : List String} {param : String} (hnew : param ∉ params)
    (name : String) :
    (opened name params).next (.ident param) = some (.listed name (params ++ [param])) :=
  if_neg hnew

/-- The stage behind some more tokens. -/
def run : Stage → List TokenKind → Option Stage
  | stage, [] => some stage
  | stage, kind :: kinds => (stage.next kind).bind fun later => later.run kinds

theorem run_cons {stage later : Stage} {kind : TokenKind} (hnext : stage.next kind = some later)
    (kinds : List TokenKind) : stage.run (kind :: kinds) = later.run kinds := by
  rw [run, hnext, Option.bind_some]

theorem run_append (stage : Stage) (left right : List TokenKind) :
    stage.run (left ++ right) = (stage.run left).bind fun later => later.run right := by
  induction left generalizing stage with
  | nil => rfl
  | cons kind left ih =>
      rw [List.cons_append, run, run]
      cases stage.next kind with
      | none => rfl
      | some later => exact ih later

/-! ## What has been read -/

/-- Names with commas between them, and each behind its own comma. -/
theorem intersperse_concat (params : List String) (last : String) :
    ((params ++ [last]).map TokenKind.ident).intersperse .comma =
      params.flatMap (fun param => [.ident param, .comma]) ++ [.ident last] := by
  induction params with
  | nil => rfl
  | cons param params ih =>
      rcases List.exists_cons_of_ne_nil (l := params ++ [last]) (by simp) with
        ⟨first, rest, hrest⟩
      rw [List.cons_append, List.map_cons, hrest, List.map_cons, List.intersperse_cons_cons,
        ← List.map_cons, ← hrest, ih]
      rfl

/-- The tokens that have been read at a stage. -/
def Reads : Stage → List TokenKind → Prop
  | .nothing, kinds => kinds = []
  | .named name, kinds => kinds = [.ident name]
  | .opened name params, kinds => params.Nodup ∧
      kinds = .ident name :: .lparen :: params.flatMap fun param => [.ident param, .comma]
  | .listed name params, kinds => params.Nodup ∧ params ≠ [] ∧
      kinds = .ident name :: .lparen :: (params.map .ident).intersperse .comma
  | .closed header, kinds => header.params.Nodup ∧
      kinds = .ident header.name :: .lparen ::
        ((header.params.map .ident).intersperse .comma ++ [.rparen])
  | .ended header, kinds => header.SpelledBy kinds

theorem Reads.next {stage later : Stage} {kinds : List TokenKind} {kind : TokenKind}
    (hreads : stage.Reads kinds) (hnext : stage.next kind = some later) :
    later.Reads (kinds ++ [kind]) := by
  unfold Stage.next at hnext
  split at hnext
  case h_1 =>
    cases hnext
    rw [hreads]
    rfl
  case h_2 =>
    cases hnext
    rw [hreads]
    exact ⟨List.nodup_nil, rfl⟩
  case h_3 =>
    cases hnext
    rw [hreads]
    exact ⟨List.nodup_nil, .inl ⟨rfl, rfl⟩⟩
  case h_4 name params param =>
    split at hnext
    case isTrue => cases hnext
    case isFalse hnew =>
      cases hnext
      rcases hreads with ⟨hnodup, rfl⟩
      refine ⟨?_, by simp, ?_⟩
      · rw [← List.concat_eq_append]
        exact hnodup.concat hnew
      · rw [intersperse_concat]
        rfl
  case h_5 =>
    cases hnext
    rcases hreads with ⟨hnodup, rfl⟩
    exact ⟨hnodup, rfl⟩
  case h_6 name params =>
    cases hnext
    rcases hreads with ⟨hnodup, hne, rfl⟩
    rcases List.eq_nil_or_concat params with rfl | ⟨before, last, rfl⟩
    · exact absurd rfl hne
    · refine ⟨hnodup, ?_⟩
      rw [List.concat_eq_append, intersperse_concat]
      simp
  case h_7 name params =>
    cases hnext
    rcases hreads with ⟨hnodup, -, rfl⟩
    exact ⟨hnodup, rfl⟩
  case h_8 header =>
    cases hnext
    rcases hreads with ⟨hnodup, rfl⟩
    exact ⟨hnodup, .inr (by simp)⟩
  case h_9 => cases hnext

theorem Reads.run {stage later : Stage} {before kinds : List TokenKind}
    (hreads : stage.Reads before) (hrun : stage.run kinds = some later) :
    later.Reads (before ++ kinds) := by
  induction kinds generalizing stage before with
  | nil =>
      cases hrun
      rwa [List.append_nil]
  | cons kind kinds ih =>
      rw [Stage.run] at hrun
      rcases Option.bind_eq_some_iff.mp hrun with ⟨following, hnext, hrest⟩
      rw [List.append_cons]
      exact ih (hreads.next hnext) hrest

/-- Distinct parameters are read up to the closing parenthesis. -/
theorem run_parameters (name : String) {before params : List String}
    (hnodup : (before ++ params).Nodup) (hbefore : params = [] → before = [])
    (kinds : List TokenKind) :
    (opened name before).run ((params.map .ident).intersperse .comma ++ .rparen :: kinds) =
      (closed ⟨name, before ++ params⟩).run kinds := by
  induction params generalizing before with
  | nil =>
      obtain rfl := hbefore rfl
      exact run_cons rfl kinds
  | cons param params ih =>
      rw [List.append_cons] at hnodup
      have hnew : param ∉ before := fun hmem =>
        List.disjoint_of_nodup_append (hnodup.sublist (List.sublist_append_left _ params)) hmem
          List.mem_cons_self
      have hnext := next_opened hnew name
      cases params with
      | nil =>
          rw [List.map_singleton, List.intersperse_singleton, List.singleton_append,
            run_cons hnext]
          exact run_cons rfl kinds
      | cons second params =>
          rw [List.map_cons, List.map_cons, List.intersperse_cons_cons, List.cons_append,
            List.cons_append, run_cons hnext, run_cons rfl, ← List.map_cons,
            ih hnodup (fun hnil => absurd hnil (List.cons_ne_nil _ _)), ← List.append_cons]

/-- The tokens that are read to the end are those that spell a header. -/
theorem run_eq_ended_iff {kinds : List TokenKind} {header : MacroHeader} :
    nothing.run kinds = some (ended header) ↔ header.SpelledBy kinds := by
  constructor
  · intro hrun
    have hnothing : nothing.Reads [] := rfl
    exact hnothing.run hrun
  · rcases header with ⟨name, params⟩
    rintro ⟨hnodup, ⟨hparams, rfl⟩ | rfl⟩
    · cases hparams
      rfl
    · have hempty : ([] ++ params).Nodup := hnodup
      exact run_parameters name hempty (fun _ => rfl) [.eof]

/-! ## Ends of headers -/

/-- There is always one more name. -/
theorem exists_name (params : List String) : ∃ name, IsName name ∧ name ∉ params := by
  -- A name longer than all parameters together.
  let size := (params.map String.toList).flatten.length
  refine ⟨String.ofList (List.replicate (size + 1) '_'), .of_all ?_ ?_, fun hmem => ?_⟩
  · simp [isWordChar]
  · simp [List.replicate_succ]
  · have hsublist := List.sublist_flatten_of_mem (List.mem_map_of_mem (f := String.toList) hmem)
    have hle := hsublist.length_le
    rw [String.toList_ofList, List.length_replicate] at hle
    exact Nat.not_succ_le_self size hle

/-- Every stage before the end mark can be completed to a header. -/
theorem exists_ending {stage : Stage} (hstage : ∀ header, stage ≠ ended header) :
    ∃ kinds header, (∀ kind ∈ kinds, kind.Writable) ∧
      stage.run (kinds ++ [.eof]) = some (ended header) := by
  have hclosing : TokenKind.Writable .rparen :=
    ⟨_, .sign (show Lexeme.signKind? ')' = some .rparen from rfl), rfl⟩
  cases stage with
  | nothing =>
      rcases exists_name [] with ⟨name, hname, -⟩
      exact ⟨[.ident name], _, by simpa using ⟨_, .name hname, rfl⟩, rfl⟩
  | named name => exact ⟨[], _, by simp, rfl⟩
  | opened name params =>
      rcases exists_name params with ⟨param, hparam, hnew⟩
      refine ⟨[.ident param, .rparen], ⟨name, params ++ [param]⟩, ?_, ?_⟩
      · simpa using ⟨⟨_, .name hparam, rfl⟩, hclosing⟩
      · exact run_cons (next_opened hnew name) _
  | listed name params => exact ⟨[.rparen], _, by simpa using hclosing, rfl⟩
  | closed header => exact ⟨[], header, by simp, rfl⟩
  | ended header => exact absurd rfl (hstage header)

end Stage

/-! ## Beginnings of headers -/

/-- Tokens are a beginning of a header as long as there is a stage behind them. -/
theorem exists_run_of_begins {kinds : List TokenKind} (hbegins : Begins kinds) :
    ∃ stage, Stage.nothing.run kinds = some stage := by
  rcases hbegins with ⟨text, tokens, header, -, hspelled, behind, hbehind⟩
  have hrun := Stage.run_eq_ended_iff.mpr hspelled
  rw [← hbehind, Stage.run_append] at hrun
  rcases Option.bind_eq_some_iff.mp hrun with ⟨stage, hstage, -⟩
  exact ⟨stage, hstage⟩

theorem begins_of_run {kinds : List TokenKind} (hkinds : ∀ kind ∈ kinds, kind.Writable)
    {stage : Stage} (hrun : Stage.nothing.run kinds = some stage) : Begins kinds := by
  have hstage : ∀ header, stage ≠ .ended header := by
    rintro header rfl
    exact TokenKind.not_writable_eof (hkinds _ (Stage.run_eq_ended_iff.mp hrun).eof_mem)
  rcases Stage.exists_ending hstage with ⟨behind, header, hbehind, hended⟩
  rcases exists_text (List.forall_mem_append.mpr ⟨hkinds, hbehind⟩) with
    ⟨text, tokens, htokens, hmap⟩
  rw [List.append_assoc] at hmap
  refine ⟨text, tokens, header, htokens, ?_, ⟨_, hmap.symm⟩⟩
  rw [← Stage.run_eq_ended_iff, hmap, Stage.run_append, hrun]
  exact hended

end MacroHeader

end SeedLogic
