import SeedLogic.Proofs.Formula.Grammar

/-!
# Splitting arguments

The reader cuts what is between the parentheses of a call into its arguments, no
matter what they are.  It finds arguments whenever there are some (`arguments_complete`),
and what it finds are arguments (`arguments_sound`).
-/

namespace SeedLogic

/-! ## One argument -/

/-- How many inner parentheses are open behind a token, when `level` are open before it.
There is no answer for a token that ends an argument. -/
def levelAfter (level : Nat) : TokenKind → Option Nat
  | .lparen => some (level + 1)
  | .rparen => if level = 0 then none else some (level - 1)
  | .comma => if level = 0 then none else some level
  | _ => some level

theorem levelAfter_eq_none {level : Nat} {kind : TokenKind} (hnone : levelAfter level kind = none) :
    level = 0 ∧ (kind = .rparen ∨ kind = .comma) := by
  unfold levelAfter at hnone
  split at hnone
  · cases hnone
  · split at hnone
    case isTrue hlevel => exact ⟨hlevel, .inl rfl⟩
    case isFalse => cases hnone
  · split at hnone
    case isTrue hlevel => exact ⟨hlevel, .inr rfl⟩
    case isFalse => cases hnone
  · cases hnone

/-- Parentheses that are open further out stay open. -/
theorem levelAfter_add {level inner : Nat} {kind : TokenKind}
    (hlevel : levelAfter level kind = some inner) (outer : Nat) :
    levelAfter (outer + level) kind = some (outer + inner) := by
  unfold levelAfter at hlevel ⊢
  split at hlevel
  · cases hlevel
    rfl
  · split at hlevel
    case isTrue => cases hlevel
    case isFalse hne =>
      cases hlevel
      rw [if_neg (by omega), Nat.add_sub_assoc (Nat.pos_of_ne_zero hne)]
  · split at hlevel
    case isTrue => cases hlevel
    case isFalse hne =>
      cases hlevel
      rw [if_neg (by omega)]
  · cases hlevel
    rfl

theorem isArgument_cons (level : Nat) (face : Face) (faces : List Face) :
    isArgument level (face :: faces) =
      ((levelAfter level face.kind).map fun inner => isArgument inner faces).getD false := by
  cases hkind : face.kind with
  | rparen => cases level <;> simp [isArgument, levelAfter, hkind]
  | comma => cases level <;> simp [isArgument, levelAfter, hkind]
  | _ => simp [isArgument, levelAfter, hkind]

/-- Behind an argument, parentheses and commas count as before it. -/
theorem isArgument_append {inner : Nat} {part : List Face} (hpart : isArgument inner part = true)
    (level : Nat) (rest : List Face) :
    isArgument (level + inner) (part ++ rest) = isArgument level rest := by
  induction part generalizing inner with
  | nil =>
      rw [isArgument, beq_iff_eq] at hpart
      rw [hpart]
      rfl
  | cons face part ih =>
      rw [isArgument_cons] at hpart
      rw [List.cons_append, isArgument_cons]
      cases hafter : levelAfter inner face.kind with
      | none =>
          rw [hafter] at hpart
          cases hpart
      | some after =>
          rw [hafter] at hpart
          rw [levelAfter_add hafter]
          exact ih hpart

/-- All arguments of a call together count as one, inside its parentheses. -/
theorem ArgumentList.isArgument_append {parts : List (List Face)} {faces : List Face}
    (harguments : ArgumentList parts faces) (level : Nat) (rest : List Face) :
    isArgument (level + 1) (faces ++ rest) = isArgument (level + 1) rest := by
  induction harguments with
  | none => rfl
  | last _ hpart => exact SeedLogic.isArgument_append hpart (level + 1) rest
  | @more part next parts comma faces _ hpart hcomma _ ih =>
      have hfirst := SeedLogic.isArgument_append hpart (level + 1) (comma :: (faces ++ rest))
      rw [Nat.add_zero] at hfirst
      rw [List.append_assoc, List.cons_append, hfirst]
      simp only [isArgument, hcomma]
      exact ih

namespace Reader

/-- A token that does not end an argument is kept. -/
theorem splitArguments_keep {level inner : Nat} {token : Token}
    (hlevel : levelAfter level token.kind = some inner) (stop : Nat) (part : List Token)
    (parts : List (List Token)) (rest : List Token) :
    splitArguments stop level part parts (token :: rest) =
      splitArguments stop inner (part ++ [token]) parts rest := by
  cases hkind : token.kind with
  | rparen =>
      rw [hkind] at hlevel
      cases level with
      | zero => cases hlevel
      | succ level =>
          cases hlevel
          simp only [splitArguments, hkind, Nat.add_sub_cancel]
  | comma =>
      rw [hkind] at hlevel
      cases level with
      | zero => cases hlevel
      | succ level =>
          cases hlevel
          simp only [splitArguments, hkind]
  | _ =>
      rw [hkind] at hlevel
      cases hlevel
      simp only [splitArguments, hkind]

/-- The reader goes over an argument and keeps it. -/
theorem splitArguments_append {level : Nat} {used : List Token}
    (hused : isArgument level (used.map Token.face) = true) (stop : Nat) (part : List Token)
    (parts : List (List Token)) (rest : List Token) :
    splitArguments stop level part parts (used ++ rest) =
      splitArguments stop 0 (part ++ used) parts rest := by
  induction used generalizing level part with
  | nil =>
      rw [List.map_nil, isArgument, beq_iff_eq] at hused
      rw [hused, List.nil_append, List.append_nil]
  | cons token used ih =>
      rw [List.map_cons, isArgument_cons, Token.kind_face] at hused
      cases hafter : levelAfter level token.kind with
      | none =>
          rw [hafter] at hused
          cases hused
      | some after =>
          rw [hafter] at hused
          rw [List.cons_append, splitArguments_keep hafter, ih hused, List.append_assoc,
            List.singleton_append]

/-! ## Completeness -/

/-- Whatever arguments there are, they are found. -/
theorem splitArguments_complete {faceParts : List (List Face)} {faces : List Face}
    (harguments : ArgumentList faceParts faces) {used : List Token}
    (hused : used.map Token.face = faces) (stop : Nat) (parts : List (List Token))
    (hparts : faceParts = [] → parts = []) {closing : Token} (hclosing : closing.kind = .rparen)
    (rest : List Token) :
    ∃ found, found.map (List.map Token.face) = faceParts ∧
      splitArguments stop 0 [] parts (used ++ closing :: rest) =
        pure (parts ++ found, rest) := by
  induction harguments generalizing used parts with
  | none =>
      rw [List.map_eq_nil_iff.mp hused, hparts rfl]
      exact ⟨[], rfl, by simp [splitArguments, hclosing]⟩
  | @last part hne hpart =>
      refine ⟨[used], by simp [hused], ?_⟩
      rw [splitArguments_append (hused ▸ hpart), List.nil_append]
      have hnonempty : used ≠ [] := fun hnil => hne (by rw [← hused, hnil, List.map_nil])
      rcases List.exists_cons_of_ne_nil hnonempty with ⟨first, others, rfl⟩
      simp [splitArguments, hclosing]
  | @more part next others comma faces hne hpart hcomma _ ih =>
      rcases List.map_eq_append_iff.mp hused with ⟨left, behind, rfl, hleft, hbehind⟩
      rcases List.map_eq_cons_iff.mp hbehind with ⟨mark, right, rfl, hmark, hright⟩
      have hkind : mark.kind = .comma := Token.kind_of_face hmark hcomma
      have hnonempty : left ≠ [] := fun hnil => hne (by rw [← hleft, hnil, List.map_nil])
      obtain ⟨found, hfound, hsplit⟩ := ih hright (parts ++ [left]) fun hnil => by cases hnil
      refine ⟨left :: found, by rw [List.map_cons, hleft, hfound], ?_⟩
      rw [List.append_assoc, splitArguments_append (hleft ▸ hpart), List.nil_append,
        List.cons_append]
      rcases List.exists_cons_of_ne_nil hnonempty with ⟨first, others, rfl⟩
      simp only [splitArguments, hkind]
      rw [hsplit, List.append_assoc, List.singleton_append]

/-- The arguments behind an opening parenthesis are found. -/
theorem arguments_complete {faceParts : List (List Face)} {faces : List Face}
    (harguments : ArgumentList faceParts faces) {used : List Token}
    (hused : used.map Token.face = faces) (stop : Nat) {closing : Token}
    (hclosing : closing.kind = .rparen) (rest : List Token) :
    ∃ found, found.map (List.map Token.face) = faceParts ∧
      arguments stop (used ++ closing :: rest) = pure (found, rest) := by
  obtain ⟨found, hfound, hsplit⟩ :=
    splitArguments_complete harguments hused stop [] (fun _ => rfl) hclosing rest
  exact ⟨found, hfound, hsplit⟩

/-! ## Soundness -/

/-- What is found behind the argument begun: the rest of it, and others. -/
inductive Behind (closing : Token) (rest : List Token) :
    List (List Token) → List Token → Prop where
  | closed : Behind closing rest [] (closing :: rest)
  | more {others : List (List Token)} {comma : Token} {used : List Token} :
      others ≠ [] → comma.kind = .comma →
      ArgumentList (others.map (List.map Token.face)) (used.map Token.face) →
      Behind closing rest others (comma :: used ++ closing :: rest)

theorem Behind.arguments {closing : Token} {rest : List Token} {others : List (List Token)}
    {chunk tail : List Token} (hbehind : Behind closing rest others tail) (hne : chunk ≠ [])
    (hchunk : isArgument 0 (chunk.map Token.face) = true) :
    ∃ used, chunk ++ tail = used ++ closing :: rest ∧
      ArgumentList ((chunk :: others).map (List.map Token.face)) (used.map Token.face) := by
  have hfaces : chunk.map Token.face ≠ [] := by simpa using hne
  cases hbehind with
  | closed => exact ⟨chunk, rfl, .last hfaces hchunk⟩
  | @more others comma used hothers hcomma harguments =>
      rcases List.exists_cons_of_ne_nil hothers with ⟨next, parts, rfl⟩
      refine ⟨chunk ++ comma :: used, by simp, ?_⟩
      rw [List.map_append, List.map_cons]
      exact .more hfaces hchunk hcomma harguments

/-- A token at which the reader hands back arguments, or begins the next one: it ends the
argument begun. -/
theorem splitArguments_end {stop : Nat} {part : List Token} {parts found : List (List Token)}
    {token : Token} {tokens rest : List Token} {trace : List Mention}
    (hend : levelAfter 0 token.kind = none)
    (hsplit : splitArguments stop 0 part parts (token :: tokens) = ⟨trace, .ok (found, rest)⟩) :
    (token.kind = .rparen ∧ tokens = rest ∧ trace = [] ∧
      (part = [] ∧ parts = [] ∧ found = [] ∨ part ≠ [] ∧ found = parts ++ [part])) ∨
    (token.kind = .comma ∧ part ≠ [] ∧
      splitArguments stop 0 [] (parts ++ [part]) tokens = ⟨trace, .ok (found, rest)⟩) := by
  rcases levelAfter_eq_none hend with ⟨-, hkind | hkind⟩
  · left
    simp only [splitArguments, hkind] at hsplit
    split at hsplit
    · cases hsplit
      exact ⟨hkind, rfl, rfl, .inl ⟨rfl, rfl, rfl⟩⟩
    · cases hsplit
    · cases hsplit
      exact ⟨hkind, rfl, rfl, .inr ⟨List.cons_ne_nil _ _, rfl⟩⟩
  · right
    simp only [splitArguments, hkind] at hsplit
    split at hsplit
    · cases hsplit
    · exact ⟨hkind, List.cons_ne_nil _ _, hsplit⟩

/-- What is found after an argument was begun. -/
theorem splitArguments_sound {stop level : Nat} {part : List Token}
    {parts found : List (List Token)} {tokens rest : List Token} {trace : List Mention}
    (hsplit : splitArguments stop level part parts tokens = ⟨trace, .ok (found, rest)⟩) :
    trace = [] ∧ ∃ closing, closing.kind = .rparen ∧
      ((level = 0 ∧ part = [] ∧ parts = [] ∧ found = [] ∧ tokens = closing :: rest) ∨
        ∃ chunk others tail, found = parts ++ (part ++ chunk) :: others ∧ part ++ chunk ≠ [] ∧
          isArgument level (chunk.map Token.face) = true ∧ tokens = chunk ++ tail ∧
          Behind closing rest others tail) := by
  induction tokens generalizing level part parts with
  | nil => cases hsplit
  | cons token tokens ih =>
      cases hafter : levelAfter level token.kind with
      | some after =>
          rw [splitArguments_keep hafter] at hsplit
          rcases ih hsplit with ⟨htrace, closing, hclosing, hcases⟩
          rcases hcases with ⟨-, hnil, -⟩ | ⟨chunk, others, tail, hfound, -, hchunk, rfl, hbehind⟩
          · simp at hnil
          · refine ⟨htrace, closing, hclosing, .inr ⟨token :: chunk, others, tail, ?_, by simp, ?_,
              rfl, hbehind⟩⟩
            · simpa using hfound
            · rw [List.map_cons, isArgument_cons, Token.kind_face, hafter]
              exact hchunk
      | none =>
          rcases levelAfter_eq_none hafter with ⟨rfl, -⟩
          rcases splitArguments_end hafter hsplit with
            ⟨hkind, rfl, rfl, hlast⟩ | ⟨hkind, hpart, hrest⟩
          · refine ⟨rfl, token, hkind, ?_⟩
            rcases hlast with ⟨rfl, rfl, rfl⟩ | ⟨hpart, rfl⟩
            · exact .inl ⟨rfl, rfl, rfl, rfl, rfl⟩
            · exact .inr ⟨[], [], _, by simp, by simpa using hpart, rfl, rfl, .closed⟩
          · rcases ih hrest with ⟨htrace, closing, hclosing, hcases⟩
            rcases hcases with
              ⟨-, -, hnil, -⟩ | ⟨chunk, later, tail, rfl, hne, hchunk, rfl, hbehind⟩
            · simp at hnil
            · rw [List.nil_append] at hne
              rcases hbehind.arguments hne hchunk with ⟨used, hused, harguments⟩
              refine ⟨htrace, closing, hclosing, .inr ⟨[], chunk :: later, _, by simp,
                by simpa using hpart, rfl, rfl, ?_⟩⟩
              rw [hused]
              exact .more (List.cons_ne_nil _ _) hkind harguments

/-- Arguments that are found are not empty, and are stretches of the tokens. -/
theorem infix_of_splitArguments {stop level : Nat} {part : List Token}
    {parts found : List (List Token)} {tokens rest : List Token} {trace : List Mention}
    (hsplit : splitArguments stop level part parts tokens = ⟨trace, .ok (found, rest)⟩)
    {argument : List Token} (hmem : argument ∈ found) :
    argument ∈ parts ∨ argument ≠ [] ∧ argument <:+: part ++ tokens := by
  induction tokens generalizing level part parts with
  | nil => cases hsplit
  | cons token tokens ih =>
      have hhere : part ≠ [] → argument ∈ parts ++ [part] →
          argument ∈ parts ∨ argument ≠ [] ∧ argument <:+: part ++ token :: tokens := by
        intro hpart hlisted
        rcases List.mem_append.mp hlisted with hearly | hlast
        · exact .inl hearly
        · rw [List.mem_singleton.mp hlast]
          exact .inr ⟨hpart, (List.prefix_append _ _).isInfix⟩
      cases hafter : levelAfter level token.kind with
      | some after =>
          rw [splitArguments_keep hafter] at hsplit
          have hcases := ih hsplit
          rwa [List.append_assoc, List.singleton_append] at hcases
      | none =>
          rcases levelAfter_eq_none hafter with ⟨rfl, -⟩
          rcases splitArguments_end hafter hsplit with
            ⟨-, -, -, ⟨-, -, rfl⟩ | ⟨hpart, rfl⟩⟩ | ⟨-, hpart, hrest⟩
          · cases hmem
          · exact hhere hpart hmem
          · rcases ih hrest with hlisted | ⟨hne, hstretch⟩
            · exact hhere hpart hlisted
            · rw [List.nil_append] at hstretch
              have hbehind : tokens <:+: part ++ token :: tokens :=
                ((List.suffix_cons token tokens).trans (List.suffix_append part _)).isInfix
              exact .inr ⟨hne, hstretch.trans hbehind⟩

/-- What is found does not depend on what stands behind the closing parenthesis. -/
theorem splitArguments_used {stop level : Nat} {part : List Token}
    {parts found : List (List Token)} {tokens rest : List Token} {trace : List Mention}
    (hsplit : splitArguments stop level part parts tokens = ⟨trace, .ok (found, rest)⟩) :
    ∃ used, tokens = used ++ rest ∧ ∀ (place : Nat) (behind : List Token),
      splitArguments place level part parts (used ++ behind) = pure (found, behind) := by
  induction tokens generalizing level part parts with
  | nil => cases hsplit
  | cons token tokens ih =>
      cases hafter : levelAfter level token.kind with
      | some after =>
          rw [splitArguments_keep hafter] at hsplit
          rcases ih hsplit with ⟨used, rfl, hused⟩
          refine ⟨token :: used, rfl, fun place behind => ?_⟩
          rw [List.cons_append, splitArguments_keep hafter, hused]
      | none =>
          rcases levelAfter_eq_none hafter with ⟨rfl, -⟩
          rcases splitArguments_end hafter hsplit with
            ⟨hkind, rfl, -, ⟨rfl, rfl, rfl⟩ | ⟨hpart, rfl⟩⟩ | ⟨hkind, hpart, hrest⟩
          · refine ⟨[token], rfl, fun place behind => ?_⟩
            simp only [List.singleton_append, splitArguments, hkind]
          · rcases List.exists_cons_of_ne_nil hpart with ⟨first, others, rfl⟩
            refine ⟨[token], rfl, fun place behind => ?_⟩
            simp only [List.singleton_append, splitArguments, hkind]
          · rcases List.exists_cons_of_ne_nil hpart with ⟨first, others, rfl⟩
            rcases ih hrest with ⟨used, rfl, hused⟩
            refine ⟨token :: used, rfl, fun place behind => ?_⟩
            simp only [List.cons_append, splitArguments, hkind, hused]

/-- What is found behind an opening parenthesis are arguments. -/
theorem arguments_sound {stop : Nat} {tokens rest : List Token} {found : List (List Token)}
    {trace : List Mention} (hfound : arguments stop tokens = ⟨trace, .ok (found, rest)⟩) :
    trace = [] ∧ ∃ used closing, closing.kind = .rparen ∧ tokens = used ++ closing :: rest ∧
      ArgumentList (found.map (List.map Token.face)) (used.map Token.face) := by
  rcases splitArguments_sound hfound with ⟨htrace, closing, hclosing, hcases⟩
  refine ⟨htrace, ?_⟩
  rcases hcases with ⟨-, -, -, rfl, rfl⟩ | ⟨chunk, others, tail, rfl, hne, hchunk, rfl, hbehind⟩
  · exact ⟨[], closing, hclosing, rfl, .none⟩
  · rcases hbehind.arguments hne hchunk with ⟨used, hused, harguments⟩
    exact ⟨used, closing, hclosing, hused, harguments⟩

end Reader

end SeedLogic
