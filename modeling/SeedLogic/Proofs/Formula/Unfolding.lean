import SeedLogic.Proofs.Formula.Spelling

/-!
# What macros stand for

A macro stands for the formulas that its body spells, with the faces of the arguments in
the places of the parameters.  Where calls may nest deeper, macros stand for no less
(`unfolds_succ`).  The dialect of a table of macros is described by the grammar in which
its macros stand for that (`describes_ofMacros`).
-/

namespace SeedLogic

/-! ## Substitution of faces -/

namespace Face

/-- The faces that stand for a parameter: several go into parentheses. -/
def grouped : List Face → List Face
  | [] => []
  | [single] => [single]
  | first :: second :: others =>
      ⟨.lparen, "("⟩ :: first :: second :: others ++ [⟨.rparen, ")"⟩]

/-- The faces that stand for one face of a body. -/
def instantiate (bindings : List (String × List Face)) (face : Face) : List Face :=
  match face.kind with
  | .ident name =>
      match bindings.lookup name with
      | some argument => grouped argument
      | none => [face]
  | _ => [face]

/-- The faces of a body, with arguments in the places of the parameters. -/
def substitute (bindings : List (String × List Face)) (body : List Face) : List Face :=
  body.flatMap (instantiate bindings)

end Face

namespace Macro

theorem map_face_grouped (argument : List Token) :
    (grouped argument).map Token.face = Face.grouped (argument.map Token.face) := by
  rcases argument with _ | ⟨first, _ | ⟨second, others⟩⟩
  · rfl
  · rfl
  · simp [grouped, Face.grouped, Token.face]

theorem lookup_zip_map {α β : Type} (change : α → β) (params : List String)
    (arguments : List α) (name : String) :
    (params.zip (arguments.map change)).lookup name =
      ((params.zip arguments).lookup name).map change := by
  induction params generalizing arguments with
  | nil => rfl
  | cons param params ih =>
      cases arguments with
      | nil => rfl
      | cons argument arguments =>
          simp only [List.map_cons, List.zip_cons_cons, List.lookup_cons]
          cases name == param with
          | true => rfl
          | false => exact ih arguments

/-- What is substituted for tokens looks like what is substituted for their faces. -/
theorem map_face_substitute (params : List String) (arguments : List (List Token))
    (body : List Token) :
    (substitute (params.zip arguments) body).map Token.face =
      Face.substitute (params.zip (arguments.map (List.map Token.face)))
        (body.map Token.face) := by
  unfold substitute Face.substitute
  rw [List.map_flatMap, List.flatMap_map]
  congr 1
  funext token
  unfold instantiate Face.instantiate
  rw [Token.kind_face]
  cases token.kind with
  | ident name =>
      simp only [lookup_zip_map]
      cases (params.zip arguments).lookup name with
      | none => rfl
      | some argument => exact map_face_grouped argument
  | _ => rfl

/-- A macro is inlined when it gets its arguments and its body is read with them. -/
theorem inline_eq_ok_iff {deeper : List Token → Parse Formula} {entry : Macro} {head : Token}
    {arguments : List (List Token)} {trace : List Mention} {formula : Formula} :
    entry.inline deeper head arguments = ⟨trace, .ok formula⟩ ↔
      entry.params.length = arguments.length ∧ ∃ body, scan entry.body = .ok body ∧
        deeper (substitute (entry.params.zip arguments) body) = ⟨trace, .ok formula⟩ := by
  unfold inline
  by_cases hlength : entry.params.length = arguments.length
  · rw [if_pos hlength]
    cases scan entry.body with
    | ok body => simp [hlength, Recorded.mapFault_eq_ok_iff]
    | error fault =>
        constructor
        · intro hfail
          cases congrArg Recorded.result hfail
        · rintro ⟨-, body, hbody, -⟩
          cases hbody
  · rw [if_neg hlength]
    constructor
    · intro hfail
      cases congrArg Recorded.result hfail
    · rintro ⟨heq, -⟩
      exact absurd heq hlength

end Macro

/-! ## Depths -/

namespace Grammar

/-- What a macro stands for, when calls may nest `depth` levels deep. -/
def Unfolds (game : Game) (macros : MacroTable) :
    (depth : Nat) → Macro → List (List Face) → Formula → Prop
  | 0, _, _, _ => False
  | depth + 1, entry, arguments, formula =>
      entry.params.length = arguments.length ∧ ∃ body, scan entry.body = .ok body ∧
        Derives ⟨game, macros, Unfolds game macros depth⟩ .disjunction
          (Face.substitute (entry.params.zip arguments) (body.map Token.face)) [formula]

/-- The grammar of a game and its macros, when calls may nest `depth` levels deep. -/
def ofMacros (game : Game) (macros : MacroTable) (depth : Nat) : Grammar :=
  ⟨game, macros, Unfolds game macros depth⟩

variable {game : Game} {macros : MacroTable}

/-- The dialect of a table of macros is described by the grammar of the table. -/
theorem describes_ofMacros (game : Game) (macros : MacroTable) (depth : Nat) :
    (ofMacros game macros depth).Describes (.ofMacros game macros depth) := by
  induction depth with
  | zero =>
      refine ⟨rfl, rfl, fun _ => ⟨?_, ?_⟩⟩
      · intro hfail
        cases congrArg Recorded.result hfail
      · rintro ⟨-, hnothing⟩
        exact hnothing.elim
  | succ depth ih =>
      refine ⟨rfl, rfl, @fun name entry head arguments trace formula _ => ?_⟩
      have hinline : (Dialect.ofMacros game macros (depth + 1)).expand entry head arguments =
          entry.inline (Reader.formula (.ofMacros game macros depth) 0) head arguments := rfl
      rw [hinline, Macro.inline_eq_ok_iff]
      simp only [Reader.formula_eq_ok_iff ih, Macro.map_face_substitute]
      constructor
      · rintro ⟨hlength, body, hbody, rfl, hderives⟩
        exact ⟨rfl, hlength.trans (List.length_map _).symm, body, hbody, hderives⟩
      · rintro ⟨rfl, hlength, body, hbody, hderives⟩
        exact ⟨hlength.trans (List.length_map _), body, hbody, rfl, hderives⟩

/-- One level more takes nothing away from what macros stand for. -/
theorem unfolds_succ {depth : Nat} {entry : Macro} {arguments : List (List Face)}
    {formula : Formula} (hunfolds : Unfolds game macros depth entry arguments formula) :
    Unfolds game macros (depth + 1) entry arguments formula := by
  induction depth generalizing entry arguments formula with
  | zero => exact hunfolds.elim
  | succ depth ih =>
      rcases hunfolds with ⟨hlength, body, hbody, hderives⟩
      exact ⟨hlength, body, hbody, hderives.mono fun _ _ _ => ih⟩

/-- What a macro stands for is derived from its body, with the arguments in the places of
the parameters, at the depth of the call itself. -/
theorem derives_of_unfolds {depth : Nat} {entry : Macro} {arguments : List (List Face)}
    {formula : Formula} (hunfolds : Unfolds game macros depth entry arguments formula) :
    entry.params.length = arguments.length ∧ ∃ body, scan entry.body = .ok body ∧
      (ofMacros game macros depth).Derives .disjunction
        (Face.substitute (entry.params.zip arguments) (body.map Token.face)) [formula] :=
  unfolds_succ hunfolds

end Grammar

end SeedLogic
