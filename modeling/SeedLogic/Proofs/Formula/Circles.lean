import Mathlib.Data.Set.Insert
import SeedLogic.Proofs.Formula.Blame

/-!
# Macros that call each other in a circle

A name stands as an operand where nothing but parentheses and operands of the function
`at_least` is around it (`Exposes`).  Macros without parameters whose bodies all have the name
of one of them as an operand call each other in a circle (`MacroTable.Circular`): none of them
stands for anything, however deep calls may nest (`Grammar.not_unfolds_of_circular`), so that
nothing is derived where one of their names is an operand.
-/

namespace SeedLogic

/-! ## Where names are operands -/

/-- What is around a face: the name just before it, and how many parentheses are open from the
outermost one that hides what is inside of it. -/
structure Surroundings where
  caller? : Option String
  hidden : Nat

namespace Surroundings

/-- Outside of all parentheses, behind no name. -/
def outermost : Surroundings :=
  ⟨none, 0⟩

/-- A parenthesis hides what is inside of it, unless that is grouped or is operands of a
function. -/
def hides (macros : MacroTable) : Option String → Bool
  | none => false
  | some name =>
      name != Reader.Builtin.name .atLeast || (macros.find? name).isSome

/-- Go on by one face. -/
def next (macros : MacroTable) (around : Surroundings) (face : Face) : Surroundings :=
  match face.kind with
  | .lparen =>
      if 0 < around.hidden then ⟨none, around.hidden + 1⟩
      else ⟨none, (hides macros around.caller?).toNat⟩
  | .rparen => ⟨none, around.hidden - 1⟩
  | .ident name => ⟨some name, around.hidden⟩
  | _ => ⟨none, around.hidden⟩

/-- What is around the face behind some faces. -/
def behind (macros : MacroTable) (around : Surroundings) (faces : List Face) : Surroundings :=
  faces.foldl (next macros) around

@[simp]
theorem behind_nil (macros : MacroTable) (around : Surroundings) :
    behind macros around [] = around :=
  rfl

@[simp]
theorem behind_cons (macros : MacroTable) (around : Surroundings) (face : Face)
    (faces : List Face) :
    behind macros around (face :: faces) = behind macros (around.next macros face) faces :=
  rfl

@[simp]
theorem behind_append (macros : MacroTable) (around : Surroundings) (left right : List Face) :
    behind macros around (left ++ right) = behind macros (behind macros around left) right :=
  List.foldl_append

end Surroundings

/-- Some of the names stands as an operand among faces, with no parenthesis behind it. -/
def Exposes (macros : MacroTable) (names : Set String) (around : Surroundings)
    (faces : List Face) : Prop :=
  ∃ left face right name, faces = left ++ face :: right ∧ name ∈ names ∧
    face.kind = .ident name ∧ (∀ next ∈ right.head?, next.kind ≠ .lparen) ∧
      (around.behind macros left).hidden = 0

/-- Whatever the tokens of a text are, some of the names stands as an operand among them. -/
def MacroTable.Exposed (macros : MacroTable) (names : Set String) (text : String) : Prop :=
  ∀ tokens, scan text = .ok tokens →
    Exposes macros names .outermost (tokens.map Token.face)

theorem MacroTable.exposed_of_scan {macros : MacroTable} {names : Set String} {text : String}
    {tokens : List Token} (hscan : scan text = .ok tokens)
    (hexposes : Exposes macros names .outermost (tokens.map Token.face)) :
    macros.Exposed names text := by
  intro others hothers
  rw [hscan] at hothers
  cases hothers
  exact hexposes

/-- The names are those of macros without parameters, and the body of each of these has one of
the names as an operand. -/
def MacroTable.Circular (macros : MacroTable) (names : Set String) : Prop :=
  ∀ name ∈ names, ∃ entry, macros.find? name = some entry ∧ entry.params = [] ∧
    macros.Exposed names entry.body

section Exposes

variable {macros : MacroTable} {names : Set String} {around : Surroundings}

theorem not_exposes_nil : ¬ Exposes macros names around [] := by
  rintro ⟨left, face, right, name, hfaces, -⟩
  simp at hfaces

theorem exposes_cons_iff {face : Face} {faces : List Face} :
    Exposes macros names around (face :: faces) ↔
      (∃ name ∈ names, face.kind = .ident name ∧ (∀ next ∈ faces.head?, next.kind ≠ .lparen) ∧
        around.hidden = 0) ∨ Exposes macros names (around.next macros face) faces := by
  constructor
  · rintro ⟨left, shown, right, name, hfaces, hname, hkind, hnext, hhidden⟩
    cases left with
    | nil =>
        cases hfaces
        exact .inl ⟨name, hname, hkind, hnext, hhidden⟩
    | cons first left =>
        cases hfaces
        exact .inr ⟨left, shown, right, name, rfl, hname, hkind, hnext, hhidden⟩
  · rintro (⟨name, hname, hkind, hnext, hhidden⟩ |
      ⟨left, shown, right, name, rfl, hname, hkind, hnext, hhidden⟩)
    · exact ⟨[], face, faces, name, rfl, hname, hkind, hnext, hhidden⟩
    · exact ⟨face :: left, shown, right, name, rfl, hname, hkind, hnext, hhidden⟩

/-- A face that is no name does not stand as an operand. -/
theorem exposes_of_cons {face : Face} {faces : List Face}
    (hkind : ∀ name, face.kind ≠ .ident name)
    (hexposes : Exposes macros names around (face :: faces)) :
    Exposes macros names (around.next macros face) faces := by
  rcases exposes_cons_iff.mp hexposes with ⟨name, -, hname, -⟩ | hlater
  · exact absurd hname (hkind name)
  · exact hlater

/-- A name behind which a parenthesis opens does not stand as an operand. -/
theorem exposes_of_call {face opening : Face} {faces : List Face}
    (hopening : opening.kind = .lparen)
    (hexposes : Exposes macros names around (face :: opening :: faces)) :
    Exposes macros names (around.next macros face) (opening :: faces) := by
  rcases exposes_cons_iff.mp hexposes with ⟨name, -, -, hnext, -⟩ | hlater
  · exact absurd hopening (hnext opening rfl)
  · exact hlater

theorem exposes_of_append {left right : List Face}
    (hexposes : Exposes macros names around (left ++ right)) :
    Exposes macros names around left ∨
      Exposes macros names (around.behind macros left) right := by
  induction left generalizing around with
  | nil => exact .inr hexposes
  | cons face left ih =>
      rw [List.cons_append] at hexposes
      rcases exposes_cons_iff.mp hexposes with ⟨name, hname, hkind, hnext, hhidden⟩ | hlater
      · left
        refine exposes_cons_iff.mpr (.inl ⟨name, hname, hkind, fun next hmem => ?_, hhidden⟩)
        apply hnext
        rw [List.head?_append, Option.mem_def.mp hmem]
        rfl
      · rcases ih hlater with hleft | hright
        · exact .inl (exposes_cons_iff.mpr (.inr hleft))
        · exact .inr hright

end Exposes

theorem Separator.kind_ne_ident (separator : Separator) (name : String) :
    separator.kind ≠ .ident name := by
  cases separator <;> exact nofun

/-! ## Arguments -/

namespace Surroundings

variable (macros : MacroTable)

/-- Inside of a parenthesis that hides, inner parentheses are counted. -/
theorem next_of_levelAfter {level after : Nat} {face : Face}
    (hlevel : levelAfter level face.kind = some after) (caller? : Option String) :
    (next macros ⟨caller?, level + 1⟩ face).hidden = after + 1 := by
  cases hkind : face.kind with
  | rparen =>
      rw [hkind] at hlevel
      cases level with
      | zero => cases hlevel
      | succ level =>
          cases hlevel
          simp only [next, hkind]
          rfl
  | comma =>
      rw [hkind] at hlevel
      simp only [levelAfter] at hlevel
      split at hlevel <;> cases hlevel
      simp only [next, hkind]
  | _ =>
      rw [hkind] at hlevel
      cases hlevel
      simp [next, hkind]

/-- An argument of a call is hidden throughout. -/
theorem hidden_in_argument {level : Nat} {left right : List Face}
    (hargument : isArgument level (left ++ right) = true) (caller? : Option String) :
    ∃ after, (behind macros ⟨caller?, level + 1⟩ left).hidden = after + 1 ∧
      isArgument after right = true := by
  induction left generalizing level caller? with
  | nil => exact ⟨level, rfl, hargument⟩
  | cons face left ih =>
      rw [List.cons_append, isArgument_cons] at hargument
      cases hafter : levelAfter level face.kind with
      | none =>
          rw [hafter] at hargument
          cases hargument
      | some after =>
          rw [hafter] at hargument
          have hnext : (next macros ⟨caller?, level + 1⟩ face).hidden = after + 1 :=
            next_of_levelAfter macros hafter caller?
          rw [behind_cons]
          generalize next macros ⟨caller?, level + 1⟩ face = around at hnext ⊢
          rcases around with ⟨caller?, hidden⟩
          subst hnext
          exact ih hargument caller?

/-- All arguments of a call are hidden, and behind them one is between its parentheses. -/
theorem hidden_in_arguments {parts : List (List Face)} {faces left right : List Face}
    (harguments : ArgumentList parts faces) (hfaces : faces = left ++ right)
    (caller? : Option String) :
    ∃ after, (behind macros ⟨caller?, 1⟩ left).hidden = after + 1 ∧ (right = [] → after = 0) := by
  induction harguments generalizing left caller? with
  | none =>
      rcases List.nil_eq_append_iff.mp hfaces with ⟨rfl, rfl⟩
      exact ⟨0, rfl, fun _ => rfl⟩
  | @last part _ hpart =>
      rw [hfaces] at hpart
      rcases hidden_in_argument macros hpart caller? with ⟨after, hhidden, hrest⟩
      refine ⟨after, hhidden, ?_⟩
      rintro rfl
      simpa [isArgument] using hrest
  | @more part next parts comma faces _ hpart hcomma _ ih =>
      -- The place is behind the first argument, or else inside of it.
      rcases List.append_eq_append_iff.mp hfaces with ⟨used, rfl, hbehind⟩ | ⟨unread, rfl, rfl⟩
      · have hpart' : isArgument 0 (part ++ []) = true := by rwa [List.append_nil]
        rcases hidden_in_argument macros hpart' caller? with ⟨after, hhidden, hnone⟩
        obtain rfl : after = 0 := by simpa [isArgument] using hnone
        cases used with
        | nil =>
            refine ⟨0, ?_, ?_⟩
            · rwa [List.append_nil]
            · rintro rfl
              cases hbehind
        | cons mark used =>
            cases hbehind
            rw [behind_append, behind_cons]
            generalize behind macros ⟨caller?, 1⟩ part = around at hhidden ⊢
            have hnext : Surroundings.next macros around comma = ⟨none, 1⟩ := by
              simp only [Surroundings.next, hcomma, hhidden]
            rw [hnext]
            exact ih rfl none
      · rcases hidden_in_argument macros hpart caller? with ⟨after, hhidden, -⟩
        refine ⟨after, hhidden, ?_⟩
        intro hnil
        simp at hnil

variable {macros}

/-- A separator outside of parentheses leaves one there. -/
theorem next_separator {separator : Separator} {mark : Face} (hmark : mark.kind = separator.kind)
    {around : Surroundings} (hhidden : around.hidden = 0) :
    next macros around mark = outermost := by
  cases separator <;>
    simp only [next, hmark, Separator.kind, hhidden, outermost]

/-- A parenthesis behind no name hides nothing. -/
theorem next_group {opening : Face} (hopening : opening.kind = .lparen) :
    next macros outermost opening = outermost := by
  simp [next, hopening, outermost, hides]

/-- Behind a closing parenthesis one is outside, when at most that one was open. -/
theorem hidden_next_closing {closing : Face} (hclosing : closing.kind = .rparen)
    {around : Surroundings} (hhidden : around.hidden ≤ 1) :
    (next macros around closing).hidden = 0 := by
  simp only [next, hclosing]
  omega

theorem next_negation {mark : Face} (hmark : mark.kind = .not) :
    next macros outermost mark = outermost := by
  simp only [next, hmark, outermost]

/-- Before the operands of `at_least` one is outside of all parentheses that hide. -/
theorem next_atLeast {head opening number comma : Face} {count : Nat}
    (hhead : head.kind = .ident (Reader.Builtin.name .atLeast))
    (hfind : macros.find? (Reader.Builtin.name .atLeast) = none)
    (hopening : opening.kind = .lparen) (hnumber : number.kind = .number count)
    (hcomma : comma.kind = .comma) :
    next macros (next macros (next macros (next macros outermost head) opening) number) comma =
      outermost := by
  simp [next, hhead, hopening, hnumber, hcomma, outermost, hides, hfind]

section Call

variable {names : Set String} {head opening closing : Face} {name : String}
  {parts : List (List Face)} {faces : List Face} (hhead : head.kind = .ident name)
  (hhides : hides macros (some name) = true) (hopening : opening.kind = .lparen)
  (harguments : ArgumentList parts faces) (hclosing : closing.kind = .rparen)
include hhead hhides hopening harguments hclosing

omit harguments hclosing in
theorem next_call :
    next macros (next macros outermost head) opening = ⟨none, 1⟩ := by
  simp [next, hhead, hopening, outermost, hhides]

/-- Behind a call that hides its arguments one is outside of it. -/
theorem hidden_behind_call :
    (behind macros outermost (head :: opening :: faces ++ [closing])).hidden = 0 := by
  rcases hidden_in_arguments macros harguments (List.append_nil faces).symm none with
    ⟨after, hhidden, hafter⟩
  rw [hafter rfl] at hhidden
  simp only [List.cons_append, behind_cons, behind_append, behind_nil,
    next_call hhead hhides hopening]
  exact hidden_next_closing hclosing (Nat.le_of_eq hhidden)

/-- In a call that hides its arguments no name stands as an operand. -/
theorem not_exposes_call :
    ¬ Exposes macros names outermost (head :: opening :: faces ++ [closing]) := by
  intro hexposes
  rw [List.cons_append, List.cons_append] at hexposes
  have hbehind := exposes_of_call hopening hexposes
  have hinside := exposes_of_cons (by simp [hopening]) hbehind
  rw [next_call hhead hhides hopening] at hinside
  rcases exposes_of_append hinside with ⟨left, face, right, shown, hfaces, -, -, -, hhidden⟩ | hlast
  · rcases hidden_in_arguments macros harguments hfaces none with ⟨after, hafter, -⟩
    rw [hafter] at hhidden
    cases hhidden
  · exact not_exposes_nil (exposes_of_cons (by simp [hclosing]) hlast)

end Call

end Surroundings

/-! ## Derivations -/

namespace Grammar

open Surroundings

variable {grammar : Grammar} {category : Category} {faces : List Face} {formulas : List Formula}

/-- An application of a function hides its arguments. -/
theorem hides_of_applies {game : Game} {macros : MacroTable} {builtin : Reader.Builtin}
    {parts : List (List Face)} {formula : Formula} (happlies : Applies game builtin parts formula) :
    hides macros (some builtin.name) = true := by
  cases happlies <;> rfl

theorem hides_of_find? {macros : MacroTable} {name : String} {entry : Macro}
    (hfind : macros.find? name = some entry) : hides macros (some name) = true := by
  simp [hides, hfind]

/-- Behind what is derived one is outside of all parentheses in it. -/
theorem hidden_behind_of_derives (hderives : grammar.Derives category faces formulas) :
    (behind grammar.macros outermost faces).hidden = 0 := by
  induction hderives with
  | last _ ih => exact ih
  | more _ hmark _ ihleft ihright =>
      rw [behind_append, behind_cons, next_separator hmark ihleft]
      exact ihright
  | disjunction _ ih => exact ih
  | conjunction _ ih => exact ih
  | plain _ ih => exact ih
  | negation hmark _ ih =>
      rw [behind_cons, next_negation hmark]
      exact ih
  | group hopening _ hclosing ih =>
      simp only [List.cons_append, behind_cons, behind_append, behind_nil, next_group hopening]
      exact hidden_next_closing hclosing (Nat.le_of_lt (Nat.lt_succ_of_le (Nat.le_of_eq ih)))
  | constant hword | item hword _ _ | macroName hword _ _ _ _ =>
      simp only [behind_cons, behind_nil, next, hword]
      rfl
  | apply hhead _ hopening harguments hclosing happlies =>
      exact hidden_behind_call hhead (hides_of_applies happlies) hopening harguments hclosing
  | macroCall hhead hfind hopening harguments hclosing _ =>
      exact hidden_behind_call hhead (hides_of_find? hfind) hopening harguments hclosing
  | atLeast hhead hfind hopening hnumber hcomma _ hclosing ih =>
      simp only [List.cons_append, behind_cons, behind_append, behind_nil,
        next_atLeast hhead hfind hopening hnumber hcomma]
      exact hidden_next_closing hclosing (Nat.le_succ_of_le (Nat.le_of_eq ih))

/-- Where the name of a macro is an operand of what is derived, the macro stands for
something. -/
theorem expands_of_exposes {names : Set String} (hconstant : ∀ value, constantName value ∉ names)
    (hentry : ∀ name ∈ names, ∃ entry, grammar.macros.find? name = some entry)
    (hderives : grammar.Derives category faces formulas)
    (hexposes : Exposes grammar.macros names outermost faces) :
    ∃ name ∈ names, ∃ entry formula, grammar.macros.find? name = some entry ∧
      grammar.expands entry [] formula := by
  -- Of a single word, only the word itself can be the operand.
  have hword : ∀ {word : Face} {name : String}, word.kind = .ident name →
      Exposes grammar.macros names outermost [word] → name ∈ names := by
    intro word name hkind hexposes
    rcases exposes_cons_iff.mp hexposes with ⟨shown, hshown, hsame, -⟩ | hnone
    · rw [hkind] at hsame
      cases hsame
      exact hshown
    · exact absurd hnone not_exposes_nil
  induction hderives with
  | last _ ih => exact ih hexposes
  | @more separator _ _ _ _ _ hleft hmark _ ihleft ihright =>
      rcases exposes_of_append hexposes with hfirst | hrest
      · exact ihleft hfirst
      · have hbehind := exposes_of_cons (hmark ▸ separator.kind_ne_ident) hrest
        rw [next_separator hmark (hidden_behind_of_derives hleft)] at hbehind
        exact ihright hbehind
  | disjunction _ ih => exact ih hexposes
  | conjunction _ ih => exact ih hexposes
  | plain _ ih => exact ih hexposes
  | negation hmark _ ih =>
      have hbehind := exposes_of_cons (by simp [hmark]) hexposes
      rw [next_negation hmark] at hbehind
      exact ih hbehind
  | group hopening _ hclosing ih =>
      have hbehind := exposes_of_cons (by simp [hopening]) hexposes
      rw [next_group hopening] at hbehind
      rcases exposes_of_append hbehind with hinside | hlast
      · exact ih hinside
      · exact absurd (exposes_of_cons (by simp [hclosing]) hlast) not_exposes_nil
  | constant hkind => exact absurd (hword hkind hexposes) (hconstant _)
  | item hkind _ hfind =>
      rcases hentry _ (hword hkind hexposes) with ⟨entry, hsome⟩
      rw [hfind] at hsome
      cases hsome
  | apply hhead _ hopening harguments hclosing happlies =>
      exact absurd hexposes
        (not_exposes_call hhead (hides_of_applies happlies) hopening harguments hclosing)
  | atLeast hhead hfind hopening hnumber hcomma _ hclosing ih =>
      have hbehind := exposes_of_call hopening hexposes
      have hcount := exposes_of_cons (by simp [hopening]) hbehind
      have hoperands := exposes_of_cons (by simp [hcomma])
        (exposes_of_cons (by simp [hnumber]) hcount)
      rw [next_atLeast hhead hfind hopening hnumber hcomma] at hoperands
      rcases exposes_of_append hoperands with hinside | hlast
      · exact ih hinside
      · exact absurd (exposes_of_cons (by simp [hclosing]) hlast) not_exposes_nil
  | macroName hkind _ hfind _ hexpands => exact ⟨_, hword hkind hexposes, _, _, hfind, hexpands⟩
  | macroCall hhead hfind hopening harguments hclosing _ =>
      exact absurd hexposes
        (not_exposes_call hhead (hides_of_find? hfind) hopening harguments hclosing)

/-! ## Circles -/

theorem substitute_nil (faces : List Face) : Face.substitute [] faces = faces := by
  have hinstantiate : Face.instantiate [] = fun face => [face] := by
    funext face
    unfold Face.instantiate
    split <;> rfl
  rw [Face.substitute, hinstantiate, List.flatMap_singleton']

variable {game : Game} {macros : MacroTable} {names : Set String}

/-- Where macros call each other in a circle, no formula is derived from tokens among which one
of their names is an operand, if they stand for nothing. -/
theorem not_derives_of_exposes {depth : Nat} (hconstant : ∀ value, constantName value ∉ names)
    (hcircular : macros.Circular names)
    (hunfolds : ∀ name ∈ names, ∀ entry, macros.find? name = some entry →
      ∀ formula, ¬ Unfolds game macros depth entry [] formula)
    (hexposes : Exposes macros names outermost faces) :
    ¬ (ofMacros game macros depth).Derives category faces formulas := by
  intro hderives
  have hentry : ∀ name ∈ names, ∃ entry, macros.find? name = some entry := fun name hname =>
    (hcircular name hname).imp fun _ hentry => hentry.1
  rcases expands_of_exposes hconstant hentry hderives hexposes with
    ⟨name, hname, entry, formula, hfind, hexpands⟩
  exact hunfolds name hname entry hfind formula hexpands

/-- Macros that call each other in a circle stand for nothing, however deep calls may nest. -/
theorem not_unfolds_of_circular (hconstant : ∀ value, constantName value ∉ names)
    (hcircular : macros.Circular names) (depth : Nat) {name : String} (hname : name ∈ names)
    {entry : Macro} (hfind : macros.find? name = some entry) (formula : Formula) :
    ¬ Unfolds game macros depth entry [] formula := by
  induction depth generalizing name entry formula with
  | zero => exact id
  | succ depth ih =>
      rintro ⟨-, body, hbody, hderives⟩
      rcases hcircular name hname with ⟨found, hfound, hparams, hexposed⟩
      rw [hfind] at hfound
      cases hfound
      rw [hparams, List.zip_nil_left, substitute_nil] at hderives
      exact not_derives_of_exposes hconstant hcircular
        (fun name hname entry hfind => ih hname hfind) (hexposed body hbody) hderives

end Grammar

/-- No text in which the name of one of them is an operand is read, at any depth, where macros
call each other in a circle. -/
theorem Formula.not_read_of_exposed (game : Game) {macros : MacroTable} {names : Set String}
    (hconstant : ∀ value, constantName value ∉ names) (hcircular : macros.Circular names)
    {text : String} (hexposed : macros.Exposed names text) (depth : Nat) (formula : Formula) :
    (read game macros depth text).result ≠ .ok formula := by
  intro hread
  rw [read] at hread
  cases hscan : scan text with
  | error fault =>
      rw [hscan] at hread
      cases hread
  | ok tokens =>
      rw [hscan] at hread
      rcases (Reader.formula_eq_ok_iff (Grammar.describes_ofMacros game macros depth)).mp
        (Recorded.ext rfl hread) with ⟨-, hderives⟩
      exact Grammar.not_derives_of_exposes hconstant hcircular
        (fun name hname entry hfind =>
          Grammar.not_unfolds_of_circular hconstant hcircular depth hname hfind)
        (hexposed tokens hscan) hderives

end SeedLogic
