import SeedLogic.Proofs.Formula.Slicing
import SeedLogic.Proofs.Formula.Spelling

/-!
# Matching parentheses

What the arguments of a call are, by counting parentheses.  Tokens are balanced when no
beginning of them closes more than it opens, and in the end all is closed; they are cut at
the commas of depth 0.  The reader of arguments finds the parenthesis that closes its own,
and hands back the stretches between these commas (`arguments_eq_ok_iff`), which are
balanced and without such commas themselves (`isPart_of_mem_stretches`).  It undoes the
writing of arguments one after the other (`arguments_of_lists`).
-/

namespace SeedLogic

/-! ## Depth -/

/-- How many parentheses a kind of token opens, less those that it closes. -/
def TokenKind.weight : TokenKind → Int
  | .lparen => 1
  | .rparen => -1
  | _ => 0

namespace Token

/-- How many parentheses tokens open, less those that they close. -/
def depth : List Token → Int
  | [] => 0
  | token :: tokens => token.kind.weight + depth tokens

@[simp]
theorem depth_nil : depth [] = 0 :=
  rfl

@[simp]
theorem depth_cons (token : Token) (tokens : List Token) :
    depth (token :: tokens) = token.kind.weight + depth tokens :=
  rfl

/-- Every parenthesis is closed, and none before it is opened. -/
structure Balanced (tokens : List Token) : Prop where
  nonneg : ∀ before, before <+: tokens → 0 ≤ depth before
  closed : depth tokens = 0

/-- A comma stands outside of all parentheses. -/
def HasFreeComma (tokens : List Token) : Prop :=
  ∃ before comma after, tokens = before ++ comma :: after ∧ comma.kind = .comma ∧
    depth before = 0

/-- What may stand between the commas of a call. -/
structure IsPart (tokens : List Token) : Prop where
  ne_nil : tokens ≠ []
  balanced : Balanced tokens
  noFreeComma : ¬HasFreeComma tokens

/-- Parts one after the other, with a comma between each two of them. -/
inductive Separated : List (List Token) → List Token → Prop where
  | last {part : List Token} : Separated [part] part
  | more {part tokens : List Token} {parts : List (List Token)} {comma : Token} :
      comma.kind = .comma → Separated parts tokens →
      Separated (part :: parts) (part ++ comma :: tokens)

/-- Parts as they stand between parentheses, where there may be none. -/
def Lists (parts : List (List Token)) (tokens : List Token) : Prop :=
  (parts = [] ∧ tokens = []) ∨ Separated parts tokens

/-- The stretches of tokens between the commas outside of all parentheses, when `level`
parentheses are open in front of them. -/
def stretches : (level : Int) → List Token → List (List Token)
  | _, [] => [[]]
  | level, token :: tokens =>
      if token.kind = .comma ∧ level = 0 then [] :: stretches level tokens
      else (stretches (level + token.kind.weight) tokens).modifyHead (token :: ·)

/-! ## Open parentheses -/

/-- Tokens close all parentheses, also the `level` ones that are open in front of them. -/
def Closes (level : Int) (tokens : List Token) : Prop :=
  (∀ before, before <+: tokens → 0 ≤ level + depth before) ∧ level + depth tokens = 0

/-- A comma stands where nothing is open, when `level` parentheses are open in front. -/
def Exposes (level : Int) (tokens : List Token) : Prop :=
  ∃ before comma after, tokens = before ++ comma :: after ∧ comma.kind = .comma ∧
    level + depth before = 0

theorem balanced_iff {tokens : List Token} : Balanced tokens ↔ Closes 0 tokens := by
  unfold Closes
  simp only [Int.zero_add]
  exact ⟨fun hbalanced => ⟨hbalanced.nonneg, hbalanced.closed⟩, fun hcloses =>
    ⟨hcloses.1, hcloses.2⟩⟩

theorem hasFreeComma_iff {tokens : List Token} : HasFreeComma tokens ↔ Exposes 0 tokens := by
  unfold HasFreeComma Exposes
  simp only [Int.zero_add]

theorem closes_nil_iff {level : Int} : Closes level [] ↔ level = 0 := by
  unfold Closes
  simp only [List.prefix_nil, forall_eq, depth_nil, Int.add_zero]
  omega

theorem closes_cons_iff {level : Int} {token : Token} {tokens : List Token} :
    Closes level (token :: tokens) ↔ 0 ≤ level ∧ Closes (level + token.kind.weight) tokens := by
  unfold Closes
  simp only [List.prefix_cons_iff, depth_cons, ← Int.add_assoc]
  constructor
  · rintro ⟨hnonneg, hclosed⟩
    refine ⟨by simpa using hnonneg [] (.inl rfl), fun before hbefore => ?_, hclosed⟩
    simpa [Int.add_assoc] using hnonneg (token :: before) (.inr ⟨before, rfl, hbefore⟩)
  · rintro ⟨hlevel, hnonneg, hclosed⟩
    refine ⟨?_, hclosed⟩
    rintro before (rfl | ⟨others, rfl, hothers⟩)
    · simpa using hlevel
    · simpa [Int.add_assoc] using hnonneg others hothers

theorem not_exposes_nil (level : Int) : ¬Exposes level [] := by
  rintro ⟨before, comma, after, hnil, -⟩
  cases before <;> cases hnil

theorem exposes_cons_iff {level : Int} {token : Token} {tokens : List Token} :
    Exposes level (token :: tokens) ↔
      (token.kind = .comma ∧ level = 0) ∨ Exposes (level + token.kind.weight) tokens := by
  constructor
  · rintro ⟨before, comma, after, hsplit, hcomma, hlevel⟩
    cases before with
    | nil =>
        cases hsplit
        exact .inl ⟨hcomma, by simpa using hlevel⟩
    | cons first before =>
        cases hsplit
        refine .inr ⟨before, comma, after, rfl, hcomma, ?_⟩
        rwa [depth_cons, ← Int.add_assoc] at hlevel
  · rintro (⟨hcomma, rfl⟩ | ⟨before, comma, after, rfl, hcomma, hlevel⟩)
    · exact ⟨[], token, tokens, rfl, hcomma, rfl⟩
    · refine ⟨token :: before, comma, after, rfl, hcomma, ?_⟩
      rwa [depth_cons, ← Int.add_assoc]

theorem Closes.nonneg {level : Int} {tokens : List Token} (hcloses : Closes level tokens) :
    0 ≤ level := by
  simpa using hcloses.1 [] (List.nil_prefix)

/-- Behind tokens that close everything, parentheses count from 0. -/
theorem closes_append_iff {level : Int} {left right : List Token} (hleft : Closes level left) :
    Closes level (left ++ right) ↔ Closes 0 right := by
  induction left generalizing level with
  | nil => rw [List.nil_append, closes_nil_iff.mp hleft]
  | cons token left ih =>
      rcases closes_cons_iff.mp hleft with ⟨hlevel, hlater⟩
      rw [List.cons_append, closes_cons_iff, ih hlater]
      exact and_iff_right hlevel

/-! ## Stretches -/

theorem stretches_comma {token : Token} (hcomma : token.kind = .comma) (tokens : List Token) :
    stretches 0 (token :: tokens) = [] :: stretches 0 tokens :=
  if_pos ⟨hcomma, rfl⟩

theorem stretches_keep {level : Int} {token : Token} (hkeep : ¬(token.kind = .comma ∧ level = 0))
    (tokens : List Token) :
    stretches level (token :: tokens) =
      (stretches (level + token.kind.weight) tokens).modifyHead (token :: ·) :=
  if_neg hkeep

theorem stretches_ne_nil (level : Int) (tokens : List Token) : stretches level tokens ≠ [] := by
  induction tokens generalizing level with
  | nil => exact List.cons_ne_nil _ _
  | cons token tokens ih =>
      by_cases hcomma : token.kind = .comma ∧ level = 0
      · rcases hcomma with ⟨hkind, rfl⟩
        rw [stretches_comma hkind]
        exact List.cons_ne_nil _ _
      · rw [stretches_keep hcomma]
        simpa using ih _

/-- A token in front belongs to the first part. -/
theorem Separated.cons {parts : List (List Token)} {tokens : List Token}
    (hseparated : Separated parts tokens) (token : Token) :
    Separated (parts.modifyHead (token :: ·)) (token :: tokens) := by
  cases hseparated with
  | last => exact .last
  | more hcomma hlater => exact .more hcomma hlater

/-- Stretches are separated by commas. -/
theorem separated_stretches (level : Int) (tokens : List Token) :
    Separated (stretches level tokens) tokens := by
  induction tokens generalizing level with
  | nil => exact .last
  | cons token tokens ih =>
      by_cases hcomma : token.kind = .comma ∧ level = 0
      · rcases hcomma with ⟨hkind, rfl⟩
        rw [stretches_comma hkind]
        exact .more hkind (ih 0)
      · rw [stretches_keep hcomma]
        exact (ih _).cons token

/-- Between the commas, each stretch closes its own parentheses.  The first one also closes
those that are open in front. -/
theorem exists_stretches {level : Int} {tokens : List Token} (hcloses : Closes level tokens) :
    ∃ first others, stretches level tokens = first :: others ∧
      (Closes level first ∧ ¬Exposes level first) ∧
      ∀ part ∈ others, Closes 0 part ∧ ¬Exposes 0 part := by
  induction tokens generalizing level with
  | nil => exact ⟨[], [], rfl, ⟨hcloses, not_exposes_nil level⟩, by simp⟩
  | cons token tokens ih =>
      rcases closes_cons_iff.mp hcloses with ⟨hlevel, hlater⟩
      rcases ih hlater with ⟨first, others, hstretches, hfirst, hothers⟩
      by_cases hcomma : token.kind = .comma ∧ level = 0
      · rcases hcomma with ⟨hkind, rfl⟩
        have hweight : 0 + token.kind.weight = 0 := by rw [hkind]; rfl
        rw [hweight] at hstretches hfirst
        refine ⟨[], first :: others, ?_, ⟨closes_nil_iff.mpr rfl, not_exposes_nil 0⟩,
          List.forall_mem_cons.mpr ⟨hfirst, hothers⟩⟩
        rw [stretches_comma hkind, hstretches]
      · refine ⟨token :: first, others, ?_, ⟨closes_cons_iff.mpr ⟨hlevel, hfirst.1⟩, ?_⟩, hothers⟩
        · rw [stretches_keep hcomma, hstretches]
          rfl
        · rw [exposes_cons_iff]
          exact not_or.mpr ⟨hcomma, hfirst.2⟩

/-- The first comma outside of all parentheses ends the first stretch. -/
theorem stretches_append {level : Int} {part : List Token} (hcloses : Closes level part)
    (hexposes : ¬Exposes level part) {comma : Token} (hcomma : comma.kind = .comma)
    (tokens : List Token) :
    stretches level (part ++ comma :: tokens) = part :: stretches 0 tokens := by
  induction part generalizing level with
  | nil =>
      rw [closes_nil_iff.mp hcloses]
      exact stretches_comma hcomma tokens
  | cons token part ih =>
      rw [exposes_cons_iff, not_or] at hexposes
      rw [List.cons_append, stretches_keep hexposes.1,
        ih (closes_cons_iff.mp hcloses).2 hexposes.2]
      rfl

/-- Without commas outside of all parentheses there is one stretch. -/
theorem stretches_eq_singleton {level : Int} {part : List Token} (hexposes : ¬Exposes level part) :
    stretches level part = [part] := by
  induction part generalizing level with
  | nil => rfl
  | cons token part ih =>
      rw [exposes_cons_iff, not_or] at hexposes
      rw [stretches_keep hexposes.1, ih hexposes.2]
      rfl

/-! ## Parts -/

theorem isPart_iff {tokens : List Token} :
    IsPart tokens ↔ tokens ≠ [] ∧ Closes 0 tokens ∧ ¬Exposes 0 tokens := by
  rw [← balanced_iff, ← hasFreeComma_iff]
  exact ⟨fun hpart => ⟨hpart.ne_nil, hpart.balanced, hpart.noFreeComma⟩,
    fun ⟨hne, hbalanced, hcomma⟩ => ⟨hne, hbalanced, hcomma⟩⟩

/-- The stretches of balanced tokens are parts, when none of them is empty. -/
theorem isPart_of_mem_stretches {tokens : List Token} (hbalanced : Balanced tokens)
    (hnil : [] ∉ stretches 0 tokens) {part : List Token} (hmem : part ∈ stretches 0 tokens) :
    IsPart part := by
  rcases exists_stretches (balanced_iff.mp hbalanced) with
    ⟨first, others, hstretches, hfirst, hothers⟩
  have hne : part ≠ [] := fun heq => hnil (heq ▸ hmem)
  rw [hstretches] at hmem
  rcases List.mem_cons.mp hmem with rfl | hlater
  · exact isPart_iff.mpr ⟨hne, hfirst⟩
  · exact isPart_iff.mpr ⟨hne, hothers part hlater⟩

/-- Parts one after the other are balanced, and their stretches are the parts. -/
theorem stretches_of_separated {parts : List (List Token)} {tokens : List Token}
    (hseparated : Separated parts tokens) (hparts : ∀ part ∈ parts, IsPart part) :
    Balanced tokens ∧ stretches 0 tokens = parts := by
  induction hseparated with
  | last =>
      have hpart := hparts _ (List.mem_singleton_self _)
      exact ⟨hpart.balanced, stretches_eq_singleton (isPart_iff.mp hpart).2.2⟩
  | @more part tokens parts comma hcomma _ ih =>
      rw [List.forall_mem_cons] at hparts
      rcases ih hparts.2 with ⟨hbalanced, hstretches⟩
      rcases isPart_iff.mp hparts.1 with ⟨-, hcloses, hexposes⟩
      refine ⟨?_, by rw [stretches_append hcloses hexposes hcomma, hstretches]⟩
      rw [balanced_iff, closes_append_iff hcloses, closes_cons_iff, hcomma]
      exact ⟨Int.le_refl 0, balanced_iff.mp hbalanced⟩

end Token

/-! ## Arguments -/

namespace Reader

open Token (Balanced Closes IsPart Lists stretches)

variable {stop : Nat} {tokens rest : List Token} {found : List (List Token)}

theorem weight_of_levelAfter {level after : Nat} {kind : TokenKind}
    (hafter : levelAfter level kind = some after) :
    (after : Int) = level + kind.weight ∧ ¬(kind = .comma ∧ (level : Int) = 0) ∧
      ¬(kind = .rparen ∧ (level : Int) = 0) := by
  unfold levelAfter at hafter
  split at hafter
  · cases hafter
    simp [TokenKind.weight]
  · split at hafter
    case isTrue => cases hafter
    case isFalse hne =>
      cases hafter
      simp only [TokenKind.weight]
      omega
  · split at hafter
    case isTrue => cases hafter
    case isFalse hne =>
      cases hafter
      simp [TokenKind.weight, hne]
  · cases hafter
    simp_all [TokenKind.weight]

/-- How the stretches of all that is left make arguments, behind the `parts` already found:
there are none between parentheses with nothing inside, and otherwise no stretch is empty. -/
def Concludes (parts all found : List (List Token)) : Prop :=
  (parts = [] ∧ all = [[]] ∧ found = []) ∨ ([] ∉ all ∧ found = parts ++ all)

/-- The parenthesis that closes the call concludes it. -/
theorem splitArguments_rparen {token : Token} (hkind : token.kind = .rparen) {part : List Token}
    {parts : List (List Token)} :
    (splitArguments stop 0 part parts (token :: tokens)).result = .ok (found, rest) ↔
      tokens = rest ∧ Concludes parts [part] found := by
  unfold Concludes
  simp only [splitArguments, hkind]
  rcases part with _ | ⟨first, part⟩ <;> rcases parts with _ | ⟨before, parts⟩ <;>
    simp [Parse.failAt, and_comm, eq_comm]

/-- A comma outside of all parentheses ends a part, which must not be empty. -/
theorem splitArguments_comma {token : Token} (hkind : token.kind = .comma) {part : List Token}
    {parts : List (List Token)} :
    (splitArguments stop 0 part parts (token :: tokens)).result = .ok (found, rest) ↔
      part ≠ [] ∧
        (splitArguments stop 0 [] (parts ++ [part]) tokens).result = .ok (found, rest) := by
  simp only [splitArguments, hkind]
  cases part <;> simp [Parse.failAt]

/-- Nothing in front of the first stretch changes no stretch. -/
theorem modifyHead_nil (all : List (List Token)) : all.modifyHead ([] ++ ·) = all := by
  cases all <;> rfl

theorem concludes_cons_iff {part : List Token} {parts all : List (List Token)} (hne : part ≠ []) :
    Concludes parts (part :: all) found ↔ Concludes (parts ++ [part]) all found := by
  unfold Concludes
  simp [hne, Ne.symm hne]

/-- The arguments found by a reader that has the `part` begun and the `parts` in front of it:
the tokens go on up to the parenthesis that closes the call, cut at the commas. -/
def Finds (found : List (List Token)) (rest : List Token) (level : Nat) (part : List Token)
    (parts : List (List Token)) (tokens : List Token) : Prop :=
  ∃ inner closing, tokens = inner ++ closing :: rest ∧ closing.kind = .rparen ∧
    Closes level inner ∧ Concludes parts ((stretches level inner).modifyHead (part ++ ·)) found

theorem not_finds_nil {level : Nat} {part : List Token} {parts : List (List Token)} :
    ¬Finds found rest level part parts [] := by
  rintro ⟨inner, closing, hnil, -⟩
  cases inner <;> cases hnil

/-- A token that is kept belongs to the part begun. -/
theorem finds_keep_iff {level after : Nat} {token : Token} {part : List Token}
    {parts : List (List Token)} (hafter : levelAfter level token.kind = some after) :
    Finds found rest level part parts (token :: tokens) ↔
      Finds found rest after (part ++ [token]) parts tokens := by
  rcases weight_of_levelAfter hafter with ⟨hweight, hcomma, hrparen⟩
  have hstretches : ∀ inner, (stretches level (token :: inner)).modifyHead (part ++ ·) =
      (stretches after inner).modifyHead (part ++ [token] ++ ·) := by
    intro inner
    rw [Token.stretches_keep hcomma, ← hweight, List.modifyHead_modifyHead]
    congr 1
    funext first
    exact List.append_cons part token first
  constructor
  · rintro ⟨inner, closing, hsplit, hclosing, hcloses, hconcludes⟩
    cases inner with
    | nil =>
        cases hsplit
        exact absurd ⟨hclosing, Token.closes_nil_iff.mp hcloses⟩ hrparen
    | cons first inner =>
        cases hsplit
        refine ⟨inner, closing, rfl, hclosing, ?_, hstretches inner ▸ hconcludes⟩
        rw [hweight]
        exact (Token.closes_cons_iff.mp hcloses).2
  · rintro ⟨inner, closing, rfl, hclosing, hcloses, hconcludes⟩
    rw [hweight] at hcloses
    exact ⟨token :: inner, closing, rfl, hclosing,
      Token.closes_cons_iff.mpr ⟨Int.natCast_nonneg level, hcloses⟩,
      hstretches inner ▸ hconcludes⟩

/-- The parenthesis that closes the call is the first one that closes what is not open. -/
theorem finds_rparen_iff {token : Token} (hkind : token.kind = .rparen) {part : List Token}
    {parts : List (List Token)} :
    Finds found rest 0 part parts (token :: tokens) ↔
      tokens = rest ∧ Concludes parts [part] found := by
  have hstretches : (stretches 0 []).modifyHead (part ++ ·) = [part] := by
    rw [stretches, List.modifyHead_cons, List.append_nil]
  constructor
  · rintro ⟨inner, closing, hsplit, -, hcloses, hconcludes⟩
    cases inner with
    | nil =>
        cases hsplit
        exact ⟨rfl, hstretches ▸ hconcludes⟩
    | cons first inner =>
        cases hsplit
        have hlevel := (Token.closes_cons_iff.mp hcloses).2.nonneg
        rw [hkind] at hlevel
        cases hlevel
  · rintro ⟨rfl, hconcludes⟩
    exact ⟨[], token, rfl, hkind, Token.closes_nil_iff.mpr rfl, hstretches.symm ▸ hconcludes⟩

/-- A comma outside of all parentheses begins the next part. -/
theorem finds_comma_iff {token : Token} (hkind : token.kind = .comma) {part : List Token}
    {parts : List (List Token)} :
    Finds found rest 0 part parts (token :: tokens) ↔
      part ≠ [] ∧ Finds found rest 0 [] (parts ++ [part]) tokens := by
  have hlevel : ((0 : Nat) : Int) + token.kind.weight = (0 : Nat) := by
    rw [hkind]
    rfl
  have hstretches : ∀ inner, (stretches (0 : Nat) (token :: inner)).modifyHead (part ++ ·) =
      part :: stretches (0 : Nat) inner := by
    intro inner
    rw [Int.natCast_zero, Token.stretches_comma hkind, List.modifyHead_cons, List.append_nil]
  unfold Finds
  simp only [modifyHead_nil]
  constructor
  · rintro ⟨inner, closing, hsplit, hclosing, hcloses, hconcludes⟩
    cases inner with
    | nil =>
        cases hsplit
        rw [hkind] at hclosing
        cases hclosing
    | cons first inner =>
        cases hsplit
        rw [Token.closes_cons_iff, hlevel] at hcloses
        rw [hstretches] at hconcludes
        have hpart : part ≠ [] := by
          rintro rfl
          simp [Concludes, Token.stretches_ne_nil] at hconcludes
        exact ⟨hpart, inner, closing, rfl, hclosing, hcloses.2,
          (concludes_cons_iff hpart).mp hconcludes⟩
  · rintro ⟨hpart, inner, closing, rfl, hclosing, hcloses, hconcludes⟩
    refine ⟨token :: inner, closing, rfl, hclosing, ?_, ?_⟩
    · rw [Token.closes_cons_iff, hlevel]
      exact ⟨Int.le_refl 0, hcloses⟩
    · rw [hstretches, concludes_cons_iff hpart]
      exact hconcludes

/-- The reader goes up to the parenthesis that closes its own and cuts at the commas. -/
theorem splitArguments_eq_ok_iff {level : Nat} {part : List Token} {parts : List (List Token)} :
    (splitArguments stop level part parts tokens).result = .ok (found, rest) ↔
      Finds found rest level part parts tokens := by
  induction tokens generalizing level part parts with
  | nil => exact ⟨nofun, fun hfinds => absurd hfinds not_finds_nil⟩
  | cons token tokens ih =>
      cases hafter : levelAfter level token.kind with
      | some after => rw [splitArguments_keep hafter, ih, finds_keep_iff hafter]
      | none =>
          rcases levelAfter_eq_none hafter with ⟨rfl, hkind | hkind⟩
          · rw [splitArguments_rparen hkind, finds_rparen_iff hkind]
          · rw [splitArguments_comma hkind, ih, finds_comma_iff hkind]

/-- Arguments are found when the parenthesis in front of them is closed, and what it
encloses is empty or is cut into stretches that are not. -/
theorem arguments_eq_ok_iff :
    (arguments stop tokens).result = .ok (found, rest) ↔
      ∃ inner closing, tokens = inner ++ closing :: rest ∧ closing.kind = .rparen ∧
        Balanced inner ∧
        ((inner = [] ∧ found = []) ∨ ([] ∉ stretches 0 inner ∧ found = stretches 0 inner)) := by
  have hconcludes : ∀ inner, Concludes [] ((stretches 0 inner).modifyHead ([] ++ ·)) found ↔
      (inner = [] ∧ found = []) ∨ ([] ∉ stretches 0 inner ∧ found = stretches 0 inner) := by
    intro inner
    rw [modifyHead_nil, Concludes, List.nil_append]
    have hnil : stretches 0 inner = [[]] ↔ inner = [] := by
      constructor
      · intro hstretches
        have hseparated := Token.separated_stretches 0 inner
        rw [hstretches] at hseparated
        cases hseparated with
        | last => rfl
        | more _ hlater => cases hlater
      · rintro rfl
        rfl
    simp [hnil]
  unfold arguments
  simp only [splitArguments_eq_ok_iff, Finds, hconcludes, Int.natCast_zero, Token.balanced_iff]

/-- Reading arguments writes nothing down. -/
theorem trace_splitArguments {level : Nat} {part : List Token} {parts : List (List Token)} :
    (splitArguments stop level part parts tokens).trace = [] := by
  induction tokens generalizing level part parts with
  | nil => rfl
  | cons token tokens ih =>
      cases hafter : levelAfter level token.kind with
      | some after => rw [splitArguments_keep hafter, ih]
      | none =>
          rcases levelAfter_eq_none hafter with ⟨rfl, hkind | hkind⟩
          · simp only [splitArguments, hkind]
            split <;> rfl
          · simp only [splitArguments, hkind]
            split
            · rfl
            · exact ih

/-- Parts that are written between parentheses are found. -/
theorem arguments_of_lists {inner : List Token} (hlists : Lists found inner)
    (hparts : ∀ part ∈ found, IsPart part) {closing : Token} (hclosing : closing.kind = .rparen) :
    arguments stop (inner ++ closing :: rest) = pure (found, rest) := by
  apply Recorded.ext trace_splitArguments
  apply arguments_eq_ok_iff.mpr
  rcases hlists with ⟨rfl, rfl⟩ | hseparated
  · exact ⟨[], closing, rfl, hclosing, Token.balanced_iff.mpr (Token.closes_nil_iff.mpr rfl),
      .inl ⟨rfl, rfl⟩⟩
  · rcases Token.stretches_of_separated hseparated hparts with ⟨hbalanced, hstretches⟩
    refine ⟨inner, closing, rfl, hclosing, hbalanced, .inr ?_⟩
    rw [hstretches]
    exact ⟨fun hnil => (hparts [] hnil).ne_nil rfl, rfl⟩

/-- The text of an argument of a call can be cut out, and is tokenized as the argument is. -/
theorem exists_text_of_arguments {text : String} {all : List Token}
    (hscan : scan text = .ok all) (htokens : tokens <:+: all)
    (hfound : (arguments stop tokens).result = .ok (found, rest)) {part : List Token}
    (hmem : part ∈ found) :
    ∃ written read, Token.cut? text.toList part = some written ∧
      tokenize (String.ofList written) = .ok (read ++ [Token.endOf (String.ofList written)]) ∧
      read.map Token.face = part.map Token.face := by
  rcases infix_of_arguments hfound hmem with ⟨hne, hinside⟩
  rcases hinside.trans htokens with ⟨left, right, rfl⟩
  rw [List.append_assoc] at hscan
  have hshown := (shown_parts hscan hne).2.1
  rw [← String.toList_ofList (l := Token.covered text.toList part)] at hshown
  rcases exists_scan_of_shown hshown with ⟨read, hread, hfaces⟩
  exact ⟨_, read, Token.cut?_of_scan hscan hne, tokenize_eq_ok_iff.mpr hread, hfaces⟩

/-- Reading arguments undoes the writing of them, wherever in a text the reader is behind an
opening parenthesis, with `tokens` up to the end of the text or of an argument.  Arguments
are found when the parenthesis is closed and what it encloses is empty or is cut, at the
commas of depth 0, into stretches that are not.  Then these are the arguments, each is
balanced and without such commas, the reader goes on behind the closing parenthesis, and the
text of each argument is tokenized as the argument is. -/
theorem arguments_exact {text : String} {left tokens right : List Token}
    (hscan : scan text = .ok (left ++ (tokens ++ right))) (stop : Nat) :
    (∀ found rest, (arguments stop tokens).result = .ok (found, rest) ↔
      ∃ inner closing, tokens = inner ++ closing :: rest ∧ closing.kind = .rparen ∧
        Balanced inner ∧
        ((inner = [] ∧ found = []) ∨ ([] ∉ stretches 0 inner ∧ found = stretches 0 inner))) ∧
    (∀ found rest, (arguments stop tokens).result = .ok (found, rest) → ∀ part ∈ found,
      IsPart part ∧ ∃ written read, Token.cut? text.toList part = some written ∧
        tokenize (String.ofList written) = .ok (read ++ [Token.endOf (String.ofList written)]) ∧
        read.map Token.face = part.map Token.face) ∧
    ∀ parts inner closing rest, Lists parts inner → (∀ part ∈ parts, IsPart part) →
      closing.kind = .rparen → arguments stop (inner ++ closing :: rest) = pure (parts, rest) := by
  have hinfix : tokens <:+: left ++ (tokens ++ right) :=
    ⟨left, right, List.append_assoc _ _ _⟩
  refine ⟨fun found rest => arguments_eq_ok_iff, fun found rest hfound part hmem => ⟨?_, ?_⟩,
    fun parts inner closing rest hlists hparts hclosing =>
      arguments_of_lists hlists hparts hclosing⟩
  · rcases arguments_eq_ok_iff.mp hfound with ⟨inner, closing, -, -, hbalanced, hcases⟩
    rcases hcases with ⟨-, rfl⟩ | ⟨hnil, rfl⟩
    · cases hmem
    · exact Token.isPart_of_mem_stretches hbalanced hnil hmem
  · exact exists_text_of_arguments hscan hinfix hfound hmem

/-- Two arguments, of which the second is a call with commas of its own. -/
theorem arguments_exact_nested :
    ∃ first second,
      scan "m(A, has(B, 2))" = .ok ([⟨.ident "m", 0, "m"⟩, ⟨.lparen, 1, "("⟩] ++
        ((first ++ ⟨.comma, 3, ","⟩ :: (second ++ [⟨.rparen, 14, ")"⟩])) ++ [])) ∧
      arguments 15 (first ++ ⟨.comma, 3, ","⟩ :: (second ++ [⟨.rparen, 14, ")"⟩])) =
        pure ([first, second], []) ∧
      IsPart first ∧ IsPart second := by
  let first : List Token := [⟨.ident "A", 2, "A"⟩]
  let second : List Token := [⟨.ident "has", 5, "has"⟩, ⟨.lparen, 8, "("⟩, ⟨.ident "B", 9, "B"⟩,
    ⟨.comma, 10, ","⟩, ⟨.number 2, 12, "2"⟩, ⟨.rparen, 13, ")"⟩]
  have hscan : scan "m(A, has(B, 2))" = .ok ([⟨.ident "m", 0, "m"⟩, ⟨.lparen, 1, "("⟩] ++
      ((first ++ ⟨.comma, 3, ","⟩ :: (second ++ [⟨.rparen, 14, ")"⟩])) ++ [])) := rfl
  have hexact := arguments_exact hscan 15
  have hparts := hexact.2.1 [first, second] [] rfl
  exact ⟨first, second, hscan, rfl, (hparts first (by simp)).1, (hparts second (by simp)).1⟩

end Reader

end SeedLogic
