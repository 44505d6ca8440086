import SeedLogic.Proofs.Formula.Slicing

/-!
# Comparing readers

A family of readers is compared with one reader.  What a comparison says of outcomes has to be
kept by sequences and by macro calls (`Comparison`); then it holds of a reader where it holds
of the readers inside it, with one lemma for each of them.
-/

namespace SeedLogic

/-- What is said of a family of outcomes and one outcome.  It holds where all of the family are
that outcome, and it is kept by sequences and where faults are reported at a macro call. -/
structure Comparison (ι : Type) where
  Rel : ∀ {α : Type}, (ι → Parse α) → Parse α → Prop
  const : ∀ {α : Type} (outcome : Parse α), Rel (fun _ => outcome) outcome
  bind : ∀ {α β : Type} {family : ι → Parse α} {outcome : Parse α} {next : ι → α → Parse β}
    {next' : α → Parse β}, Rel family outcome →
      (∀ value, outcome.result = .ok value →
        Rel (fun index => next index value) (next' value)) →
      Rel (fun index => family index >>= next index) (outcome >>= next')
  atCall : ∀ {family : ι → Parse Formula} {outcome : Parse Formula} (span : Text.Span)
    (name : String), Rel family outcome →
      Rel (fun index => (family index).mapFault (ParseError.atCall span name))
        (outcome.mapFault (ParseError.atCall span name))

namespace Comparison

variable {ι : Type} (comparison : Comparison ι)

/-- Readers are compared on lists of fewer than `limit` tokens. -/
def Readers (limit : Nat) (family : ι → Reader Formula) (reader : Reader Formula) : Prop :=
  ∀ tokens : List Token, tokens.length < limit →
    comparison.Rel (fun index => family index tokens) (reader tokens)

variable {comparison} {game : Game} {macros : MacroTable}
  {expand : ι → Macro → Token → List (List Token) → Parse Formula}
  {expand' : Macro → Token → List (List Token) → Parse Formula}
  {inner : ι → Nat → Reader Formula} {inner' : Nat → Reader Formula} {limit : Nat}

theorem negated {term : ι → Reader Formula} {term' : Reader Formula}
    (hterm : comparison.Readers limit term term') :
    comparison.Readers limit (fun index => Reader.negated (term index))
      (Reader.negated term') := by
  intro tokens hlimit
  induction tokens with
  | nil => exact hterm [] hlimit
  | cons token tokens ih =>
      have hshorter : tokens.length < limit := Nat.lt_of_succ_lt hlimit
      simp only [Reader.negated]
      by_cases hmark : token.kind = .not
      · simp only [if_pos hmark]
        exact comparison.bind (ih hshorter) fun _ _ => comparison.const _
      · simp only [if_neg hmark]
        exact hterm (token :: tokens) hlimit

theorem whole {reader : ι → Reader Formula} {reader' : Reader Formula}
    (hreader : comparison.Readers limit reader reader') {tokens : List Token}
    (hlimit : tokens.length < limit) :
    comparison.Rel (fun index => Reader.whole (reader index) tokens)
      (Reader.whole reader' tokens) :=
  comparison.bind (hreader tokens hlimit) fun _ _ => comparison.const _

section Inner

variable (hinner : ∀ stop, comparison.Readers limit (fun index => inner index stop) (inner' stop))
include hinner

theorem operands {stop : Nat} {parts : List (List Token)}
    (hparts : ∀ part ∈ parts, part.length < limit) :
    comparison.Rel (fun index => Reader.operands (inner index) stop parts)
      (Reader.operands inner' stop parts) := by
  induction parts with
  | nil => exact comparison.const _
  | cons part parts ih =>
      have hlater := ih fun other hmem => hparts other (List.mem_cons_of_mem part hmem)
      apply comparison.bind (whole (hinner _) (hparts part List.mem_cons_self))
      intro first _
      exact comparison.bind hlater fun _ _ => comparison.const _

theorem builtinCall {stop : Nat} {opening : Text.Span} {builtin : Reader.Builtin}
    {parts : List (List Token)} (hparts : ∀ part ∈ parts, part.length < limit) :
    comparison.Rel
      (fun index => Reader.builtinCall game (inner index) stop opening builtin parts)
      (Reader.builtinCall game inner' stop opening builtin parts) := by
  cases builtin with
  | atLeast =>
      match parts with
      | [] | [_] => exact comparison.const _
      | count :: first :: others =>
          apply comparison.bind (comparison.const (Reader.number stop count))
          intro least _
          have hothers : ∀ part ∈ first :: others, part.length < limit := fun part hmem =>
            hparts part (List.mem_cons_of_mem count hmem)
          exact comparison.bind (operands hinner hothers) fun _ _ => comparison.const _
  | has | event | setting =>
      rcases parts with _ | ⟨first, _ | ⟨second, _ | ⟨third, others⟩⟩⟩ <;>
        exact comparison.const _

variable (hexpand : ∀ entry head arguments,
  comparison.Rel (fun index => expand index entry head arguments) (expand' entry head arguments))
include hexpand

omit hinner in
theorem word {head : Token} {name : String} :
    comparison.Rel (fun index => Reader.word ⟨game, macros, expand index⟩ head name)
      (Reader.word ⟨game, macros, expand'⟩ head name) := by
  simp only [Reader.word]
  by_cases htrue : name = "true"
  · simp only [if_pos htrue]
    exact comparison.const _
  by_cases hfalse : name = "false"
  · simp only [if_neg htrue, if_pos hfalse]
    exact comparison.const _
  simp only [if_neg htrue, if_neg hfalse]
  cases macros.find? name with
  | none => exact comparison.const _
  | some entry =>
      dsimp only
      cases entry.params.isEmpty with
      | true => exact hexpand entry head []
      | false => exact comparison.const _

theorem call {stop : Nat} {head opening : Token} {name : String} {tokens : List Token}
    (hlimit : tokens.length < limit) :
    comparison.Rel
      (fun index => Reader.call ⟨game, macros, expand index⟩ (inner index) stop head name opening
        tokens)
      (Reader.call ⟨game, macros, expand'⟩ inner' stop head name opening tokens) := by
  simp only [Reader.call_eq]
  apply comparison.bind (comparison.const _)
  rintro ⟨parts, rest⟩ hfound
  have hparts : ∀ part ∈ parts, part.length < limit := fun part hmem =>
    Nat.lt_of_le_of_lt (Reader.infix_of_arguments hfound hmem).2.length_le hlimit
  refine comparison.bind ?_ fun _ _ => comparison.const _
  simp only [Reader.called]
  cases macros.find? name with
  | some entry => exact hexpand entry head parts
  | none =>
      cases Reader.Builtin.ofName? name with
      | some builtin => exact builtinCall hinner hparts
      | none => exact comparison.const _

/-- Operands are compared on lists of one token more than what is inside of them. -/
theorem operand (stop : Nat) :
    comparison.Readers (limit + 1)
      (fun index => Reader.operand ⟨game, macros, expand index⟩ (inner index) stop)
      (Reader.operand ⟨game, macros, expand'⟩ inner' stop) := by
  intro tokens hlimit
  cases tokens with
  | nil => exact comparison.const _
  | cons token tokens =>
      have hshorter : tokens.length < limit := Nat.lt_of_succ_lt_succ hlimit
      cases hkind : token.kind with
      | lparen =>
          simp only [Reader.operand, hkind]
          exact comparison.bind (hinner stop tokens hshorter) fun _ _ => comparison.const _
      | ident name =>
          cases tokens with
          | nil =>
              simp only [Reader.operand, hkind]
              exact comparison.bind (word hexpand) fun _ _ => comparison.const _
          | cons opening tokens =>
              simp only [Reader.operand, hkind]
              by_cases hopening : opening.kind = .lparen
              · simp only [if_pos hopening]
                exact call hinner hexpand (Nat.lt_of_succ_lt hshorter)
              · simp only [if_neg hopening]
                exact comparison.bind (word hexpand) fun _ _ => comparison.const _
      | _ =>
          simp only [Reader.operand, hkind]
          exact comparison.const _

end Inner

theorem inline {deeper : ι → List Token → Parse Formula} {deeper' : List Token → Parse Formula}
    (hdeeper : ∀ tokens, comparison.Rel (fun index => deeper index tokens) (deeper' tokens))
    (entry : Macro) (head : Token) (arguments : List (List Token)) :
    comparison.Rel (fun index => entry.inline (deeper index) head arguments)
      (entry.inline deeper' head arguments) := by
  simp only [Macro.inline]
  by_cases hlength : entry.params.length = arguments.length
  · simp only [if_pos hlength]
    cases scan entry.body with
    | ok body => exact comparison.atCall head.span entry.name (hdeeper _)
    | error fault => exact comparison.const _
  · simp only [if_neg hlength]
    exact comparison.const _

/-! ## Readers of any tokens -/

section Everywhere

variable {term : ι → Reader Formula} {term' : Reader Formula}
  (hterm : ∀ tokens, comparison.Rel (fun index => term index tokens) (term' tokens))
include hterm

theorem chain (separator : TokenKind) (stop fuel : Nat) (tokens : List Token) :
    comparison.Rel (fun index => Reader.chain separator stop (term index) fuel tokens)
      (Reader.chain separator stop term' fuel tokens) := by
  induction fuel generalizing tokens with
  | zero => exact comparison.const _
  | succ fuel ih =>
      simp only [Reader.chain]
      apply comparison.bind (hterm tokens)
      rintro ⟨first, rest⟩ -
      cases rest with
      | nil => exact comparison.const _
      | cons mark behind =>
          dsimp only
          by_cases hmark : mark.kind = separator
          · simp only [if_pos hmark]
            exact comparison.bind (ih behind) fun _ _ => comparison.const _
          · simp only [if_neg hmark]
            exact comparison.const _

theorem series (separator : TokenKind) (join : List Formula → Formula) (stop : Nat)
    (tokens : List Token) :
    comparison.Rel (fun index => Reader.series separator join stop (term index) tokens)
      (Reader.series separator join stop term' tokens) :=
  comparison.bind (chain hterm separator stop _ tokens) fun _ _ => comparison.const _

end Everywhere

section Expansions

variable (hexpand : ∀ entry head arguments,
  comparison.Rel (fun index => expand index entry head arguments) (expand' entry head arguments))
include hexpand

theorem disjunction (fuel stop : Nat) (tokens : List Token) :
    comparison.Rel
      (fun index => Reader.disjunction ⟨game, macros, expand index⟩ fuel stop tokens)
      (Reader.disjunction ⟨game, macros, expand'⟩ fuel stop tokens) := by
  induction fuel generalizing stop tokens with
  | zero => exact comparison.const _
  | succ fuel ih =>
      apply series
      apply series
      intro tokens
      have hinner : ∀ stop, comparison.Readers tokens.length
          (fun index => Reader.disjunction ⟨game, macros, expand index⟩ fuel stop) _ :=
        fun stop tokens _ => ih stop tokens
      exact negated (operand hinner hexpand stop) tokens (Nat.lt_succ_self _)

theorem formula (stop : Nat) (tokens : List Token) :
    comparison.Rel (fun index => Reader.formula ⟨game, macros, expand index⟩ stop tokens)
      (Reader.formula ⟨game, macros, expand'⟩ stop tokens) :=
  comparison.bind (disjunction hexpand _ stop tokens) fun _ _ => comparison.const _

end Expansions

end Comparison

end SeedLogic
