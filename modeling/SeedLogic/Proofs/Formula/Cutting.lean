import SeedLogic.Proofs.Formula.Grammar
import SeedLogic.Proofs.Outcome

/-!
# Cutting and joining texts

The lexemes of two texts are those of the texts joined, unless a word runs across
(`split_append`).  A text can be cut in front of each of its lexemes and behind it
(`split_before`, `split_behind`).  Where a text begins only moves its lexemes
(`split_add`).
-/

namespace SeedLogic

open Text (byteWidth isBlank)

/-! ## Word characters -/

theorem toNat_of_isWordChar {char : Char} (hword : isWordChar char = true) :
    48 ≤ char.toNat ∧ char.toNat ≤ 122 := by
  delta isWordChar Char.isAlphanum Char.isAlpha Char.isUpper Char.isLower Char.isDigit at hword
  simp only [Bool.or_eq_true, Bool.and_eq_true, decide_eq_true_eq, beq_iff_eq,
    UInt32.le_iff_toNat_le, ← Char.toNat_val] at hword ⊢
  rcases hword with ((⟨hlow, hhigh⟩ | ⟨hlow, hhigh⟩) | ⟨hlow, hhigh⟩) | rfl
  · exact ⟨Nat.le_trans (by decide) hlow, Nat.le_trans hhigh (by decide)⟩
  · exact ⟨Nat.le_trans (by decide) hlow, Nat.le_trans hhigh (by decide)⟩
  · exact ⟨Nat.le_trans (by decide) hlow, Nat.le_trans hhigh (by decide)⟩
  · decide

/-- Word characters are single bytes. -/
theorem utf8Size_of_isWordChar {char : Char} (hword : isWordChar char = true) :
    char.utf8Size = 1 := by
  have hle := (toNat_of_isWordChar hword).2
  rw [Char.utf8Size_eq_one_iff, UInt32.le_iff_toNat_le]
  exact Nat.le_trans hle (by decide)

theorem isBlank_of_isWordChar {char : Char} (hword : isWordChar char = true) :
    isBlank char = false := by
  have hranges : ∀ range ∈ Text.blankRanges, range.2 < 48 ∨ 122 < range.1 := by decide
  rcases toNat_of_isWordChar hword with ⟨hlow, hhigh⟩
  rw [isBlank, List.any_eq_false]
  intro range hrange
  have hout := hranges range hrange
  rw [Bool.and_eq_true, decide_eq_true_eq, decide_eq_true_eq]
  omega

/-- No word runs from one text into another. -/
def Apart (left right : List Char) : Prop :=
  ∀ last ∈ left.getLast?, ∀ first ∈ right.head?, isWordChar last = true → isWordChar first = false

theorem apart_of_first {left right : List Char} {first : Char}
    (hfirst : isWordChar first = false) : Apart left (first :: right) := by
  intro last _ other hother _
  cases hother
  exact hfirst

theorem apart_singleton {char : Char} {right : List Char} (hchar : isWordChar char = false) :
    Apart [char] right := by
  intro last hlast first _ hword
  rw [List.getLast?_singleton, Option.mem_some_iff] at hlast
  rw [← hlast, hchar] at hword
  cases hword

theorem Apart.tail {char : Char} {left right : List Char} (hapart : Apart (char :: left) right) :
    Apart left right := by
  cases left with
  | nil =>
      intro last hlast
      cases hlast
  | cons second left =>
      intro last hlast
      apply hapart
      rwa [List.getLast?_cons_cons]

namespace Lexeme

/-! ## Places of lexemes -/

/-- Where a lexeme begins. -/
def offset : Lexeme → Nat
  | .word offset _ => offset
  | .sign offset _ => offset

/-- The characters of a lexeme. -/
def chars : Lexeme → List Char
  | .word _ chars => chars
  | .sign _ char => [char]

/-- Where a lexeme ends. -/
def stop (lexeme : Lexeme) : Nat :=
  lexeme.offset + byteWidth lexeme.chars

/-- A lexeme further on. -/
def shift (width : Nat) : Lexeme → Lexeme
  | .word offset chars => .word (offset + width) chars
  | .sign offset char => .sign (offset + width) char

/-- A character begins a word of its own, or the word behind it. -/
theorem attach_eq (place : Nat) (char : Char) (rest : List Lexeme) :
    (∃ word others, rest = .word (place + 1) word :: others ∧
      attach place char rest = .word place (char :: word) :: others) ∨
    ((∀ word, rest.head? ≠ some (.word (place + 1) word)) ∧
      attach place char rest = .word place [char] :: rest) := by
  cases rest with
  | nil => exact .inr ⟨by simp, rfl⟩
  | cons first others =>
      cases first with
      | sign start sign => exact .inr ⟨by simp, rfl⟩
      | word start word =>
          by_cases hstart : start = place + 1
          · subst hstart
            exact .inl ⟨word, others, rfl, by simp [attach]⟩
          · exact .inr ⟨by simp [hstart], by simp [attach, hstart]⟩

theorem attach_merge (place : Nat) (char : Char) (word : List Char) (others : List Lexeme) :
    attach place char (.word (place + 1) word :: others) =
      .word place (char :: word) :: others := by
  simp [attach]

theorem attach_keep {place : Nat} {rest : List Lexeme}
    (hrest : ∀ word, rest.head? ≠ some (.word (place + 1) word)) (char : Char) :
    attach place char rest = .word place [char] :: rest := by
  rcases attach_eq place char rest with ⟨word, others, rfl, -⟩ | ⟨-, hattach⟩
  · exact absurd rfl (hrest word)
  · exact hattach

/-- The lexemes of a text, by its first character: a blank, a sign or a word character. -/
theorem split_cases (char : Char) :
    (∀ place text, split place (char :: text) = split (place + char.utf8Size) text) ∨
    (∀ place text, split place (char :: text) =
      .sign place char :: split (place + char.utf8Size) text) ∨
    (isWordChar char = true ∧ char.utf8Size = 1 ∧
      ∀ place text, split place (char :: text) = attach place char (split (place + 1) text)) := by
  cases hblank : isBlank char with
  | true =>
      left
      intro place text
      rw [split_cons, if_pos hblank]
  | false =>
      right
      cases hword : isWordChar char with
      | true =>
          have hwidth := utf8Size_of_isWordChar hword
          refine .inr ⟨rfl, hwidth, fun place text => ?_⟩
          rw [split_cons, hblank, if_pos hword, hwidth]
          rfl
      | false =>
          left
          intro place text
          rw [split_cons, hblank, hword]
          rfl

theorem split_of_isWordChar {char : Char} (hword : isWordChar char = true) (place : Nat)
    (text : List Char) :
    split place (char :: text) = attach place char (split (place + 1) text) := by
  rw [split_cons, isBlank_of_isWordChar hword, if_pos hword, utf8Size_of_isWordChar hword]
  rfl

/-- Lexemes do not begin before their text. -/
theorem le_offset_of_mem_split {place : Nat} {text : List Char} {lexeme : Lexeme}
    (hmem : lexeme ∈ split place text) : place ≤ lexeme.offset := by
  induction text generalizing place with
  | nil => cases hmem
  | cons char text ih =>
      rcases split_cases char with hsplit | hsplit | ⟨-, -, hsplit⟩
      · rw [hsplit] at hmem
        exact Nat.le_trans (Nat.le_add_right _ _) (ih hmem)
      · rw [hsplit] at hmem
        rcases List.mem_cons.mp hmem with rfl | hlater
        · exact Nat.le_refl place
        · exact Nat.le_trans (Nat.le_add_right _ _) (ih hlater)
      · rw [hsplit] at hmem
        rcases attach_eq place char (split (place + 1) text) with
          ⟨word, others, hrest, hattach⟩ | ⟨-, hattach⟩
        · rw [hattach] at hmem
          rcases List.mem_cons.mp hmem with rfl | hlater
          · exact Nat.le_refl place
          · apply Nat.le_of_succ_le
            apply ih
            rw [hrest]
            exact List.mem_cons_of_mem _ hlater
        · rw [hattach] at hmem
          rcases List.mem_cons.mp hmem with rfl | hlater
          · exact Nat.le_refl place
          · exact Nat.le_of_succ_le (ih hlater)

/-- A word at the front of a text begins with a word character. -/
theorem isWordChar_of_split {place : Nat} {char : Char} {text word : List Char}
    (hhead : (split place (char :: text)).head? = some (.word place word)) :
    isWordChar char = true := by
  rcases split_cases char with hsplit | hsplit | ⟨hword, -, -⟩
  · rw [hsplit] at hhead
    have hle := le_offset_of_mem_split (List.mem_of_mem_head? hhead)
    exact absurd hle (Nat.not_le_of_lt (Nat.lt_add_of_pos_right char.utf8Size_pos))
  · rw [hsplit] at hhead
    cases hhead
  · exact hword

theorem attach_shift (place width : Nat) (char : Char) (rest : List Lexeme) :
    attach (place + width) char (rest.map (shift width)) =
      (attach place char rest).map (shift width) := by
  rcases attach_eq place char rest with ⟨word, others, rfl, hmerge⟩ | ⟨hhead, hkeep⟩
  · have hplace : place + 1 + width = place + width + 1 := Nat.add_right_comm place 1 width
    rw [hmerge, List.map_cons, List.map_cons, shift, shift, hplace, attach_merge]
  · rw [hkeep, List.map_cons, attach_keep]
    · rfl
    · intro word hword
      cases rest with
      | nil => cases hword
      | cons first others =>
          cases first with
          | sign start sign => cases hword
          | word start other =>
              rw [List.map_cons, List.head?_cons, Option.some_inj, shift, Lexeme.word.injEq]
                at hword
              have hstart : start = place + 1 := by omega
              exact hhead other (by rw [hstart, List.head?_cons])

/-- Where a text begins only moves its lexemes. -/
theorem split_add (place width : Nat) (text : List Char) :
    split (place + width) text = (split place text).map (shift width) := by
  induction text generalizing place with
  | nil => rfl
  | cons char text ih =>
      rcases split_cases char with hsplit | hsplit | ⟨-, -, hsplit⟩
      · rw [hsplit, hsplit, Nat.add_right_comm, ih]
      · rw [hsplit, hsplit, Nat.add_right_comm, ih]
        rfl
      · rw [hsplit, hsplit, Nat.add_right_comm, ih, attach_shift]

/-! ## Joining -/

theorem attach_append (place : Nat) (char : Char) {left : List Lexeme} (hleft : left ≠ [])
    (right : List Lexeme) :
    attach place char (left ++ right) = attach place char left ++ right := by
  rcases List.exists_cons_of_ne_nil hleft with ⟨first, others, rfl⟩
  cases first with
  | sign start sign => rfl
  | word start word =>
      simp only [List.cons_append, attach]
      split <;> rfl

/-- A word is not continued in a text that is apart from it. -/
theorem head_split_of_apart {place : Nat} {char : Char} {left right : List Char}
    (hword : isWordChar char = true) (hapart : Apart (char :: left) right)
    (word : List Char) :
    (split (place + byteWidth left) right).head? ≠ some (.word place word) := by
  intro hhead
  have hle : place + byteWidth left ≤ place :=
    le_offset_of_mem_split (List.mem_of_mem_head? hhead)
  cases left with
  | cons second left =>
      have hpos := second.utf8Size_pos
      rw [Text.byteWidth_cons] at hle
      omega
  | nil =>
      cases right with
      | nil => cases hhead
      | cons first right =>
          have hfirst := hapart char rfl first rfl hword
          rw [isWordChar_of_split hhead] at hfirst
          cases hfirst

/-- Texts apart are cut apart. -/
theorem split_append {left right : List Char} (hapart : Apart left right) (place : Nat) :
    split place (left ++ right) = split place left ++ split (place + byteWidth left) right := by
  induction left generalizing place with
  | nil => rfl
  | cons char left ih =>
      rw [List.cons_append, Text.byteWidth_cons, ← Nat.add_assoc]
      rcases split_cases char with hsplit | hsplit | ⟨hword, hwidth, hsplit⟩
      · rw [hsplit, hsplit, ih hapart.tail]
      · rw [hsplit, hsplit, ih hapart.tail, List.cons_append]
      · rw [hsplit, hsplit, ih hapart.tail, hwidth]
        by_cases hleft : split (place + 1) left = []
        · rw [hleft, List.nil_append, attach_keep (head_split_of_apart hword hapart)]
          rfl
        · exact attach_append place char hleft _

/-- A text of word characters alone is one word. -/
theorem split_eq_word {text : List Char} (hwords : ∀ char ∈ text, isWordChar char = true)
    (hne : text ≠ []) (place : Nat) : split place text = [.word place text] := by
  induction text generalizing place with
  | nil => exact absurd rfl hne
  | cons char text ih =>
      rw [List.forall_mem_cons] at hwords
      rw [split_of_isWordChar hwords.1]
      cases text with
      | nil => rfl
      | cons second text => rw [ih hwords.2 (List.cons_ne_nil _ _), attach_merge]

/-! ## Cutting -/

/-- The lexemes of a text that is cut at a place. -/
def Cut (place : Nat) (text : List Char) (before after : List Lexeme) (cut : Nat) : Prop :=
  ∃ left right, text = left ++ right ∧ cut = place + byteWidth left ∧
    split place left = before ∧ split cut right = after

theorem cut_here (place : Nat) (text : List Char) :
    Cut place text [] (split place text) place :=
  ⟨[], text, rfl, rfl, rfl, rfl⟩

/-- A character in front of a text that is cut changes the lexemes before the cut. -/
theorem Cut.cons {place cut : Nat} {char : Char} {text : List Char}
    {before after changed : List Lexeme}
    (hcut : Cut (place + char.utf8Size) text before after cut)
    (hchanged : ∀ left, split (place + char.utf8Size) left = before →
      split place (char :: left) = changed) : Cut place (char :: text) changed after cut := by
  rcases hcut with ⟨left, right, rfl, rfl, hleft, hright⟩
  refine ⟨char :: left, right, rfl, ?_, hchanged left hleft, hright⟩
  rw [Text.byteWidth_cons, Nat.add_assoc]

/-- A word character joins the lexemes before a cut. -/
theorem attach_cut {place : Nat} {char : Char} {rest before after : List Lexeme}
    {first : Lexeme} (hattach : attach place char rest = first :: before ++ after) :
    first.offset = place ∧
      ∃ inner, rest = inner ++ after ∧ attach place char inner = first :: before := by
  rcases attach_eq place char rest with ⟨word, others, rfl, hmerge⟩ | ⟨hhead, hkeep⟩
  · rw [hmerge] at hattach
    cases hattach
    exact ⟨rfl, .word (place + 1) word :: before, rfl, attach_merge _ _ _ _⟩
  · rw [hkeep] at hattach
    cases hattach
    refine ⟨rfl, before, rfl, attach_keep (fun word hword => hhead word ?_) char⟩
    cases before with
    | nil => cases hword
    | cons second before => exact hword

/-- A text can be cut in front of a lexeme. -/
theorem split_before {place : Nat} {text : List Char} {before after : List Lexeme}
    {lexeme : Lexeme} (hsplit : split place text = before ++ lexeme :: after) :
    Cut place text before (lexeme :: after) lexeme.offset := by
  induction text generalizing place before with
  | nil => cases before <;> cases hsplit
  | cons char text ih =>
      have hhere := cut_here place (char :: text)
      rcases split_cases char with hchar | hchar | ⟨-, hwidth, hchar⟩
      · rw [hchar] at hsplit
        exact (ih hsplit).cons fun left hleft => by rw [hchar, hleft]
      · cases before with
        | nil =>
            rw [hsplit] at hhere
            rw [hchar] at hsplit
            cases hsplit
            exact hhere
        | cons first before =>
            rw [hchar] at hsplit
            rcases List.cons.inj hsplit with ⟨rfl, hrest⟩
            exact (ih hrest).cons fun left hleft => by rw [hchar, hleft]
      · cases before with
        | nil =>
            rw [hsplit] at hhere
            rw [hchar] at hsplit
            have hfirst : attach place char (split (place + 1) text) = [lexeme] ++ after := hsplit
            rcases attach_cut hfirst with ⟨hplace, -⟩
            rw [hplace]
            exact hhere
        | cons first before =>
            rw [hchar] at hsplit
            rcases attach_cut hsplit with ⟨-, inner, hrest, hinner⟩
            rw [← hwidth] at hrest
            refine (ih hrest).cons fun left hleft => ?_
            rw [hchar, ← hwidth, hleft, hinner]

/-- A word character does not move the end of the lexemes behind it. -/
theorem stop_getLast?_attach {place : Nat} {char : Char} (hwidth : char.utf8Size = 1)
    (first : Lexeme) (others : List Lexeme) :
    (attach place char (first :: others)).getLast?.map stop =
      (first :: others).getLast?.map stop := by
  rcases attach_eq place char (first :: others) with ⟨word, rest, hrest, hmerge⟩ | ⟨-, hkeep⟩
  · rw [hmerge, hrest]
    cases rest with
    | nil => simp [stop, offset, chars, hwidth, Nat.add_assoc]
    | cons second rest => rw [List.getLast?_cons_cons, List.getLast?_cons_cons]
  · rw [hkeep, List.getLast?_cons_cons]

/-- A text can be cut behind a lexeme. -/
theorem split_behind {place : Nat} {text : List Char} {before after : List Lexeme}
    {cut : Nat} (hsplit : split place text = before ++ after)
    (hcut : before.getLast?.map stop = some cut) : Cut place text before after cut := by
  induction text generalizing place before with
  | nil =>
      rcases List.append_eq_nil_iff.mp hsplit.symm with ⟨rfl, -⟩
      cases hcut
  | cons char text ih =>
      obtain ⟨first, before, rfl⟩ : ∃ first others, before = first :: others :=
        List.exists_cons_of_ne_nil fun hnil => by
          rw [hnil] at hcut
          cases hcut
      rcases split_cases char with hchar | hchar | ⟨-, hwidth, hchar⟩
      · rw [hchar] at hsplit
        exact (ih hsplit hcut).cons fun left hleft => by rw [hchar, hleft]
      · rw [hchar] at hsplit
        rcases List.cons.inj hsplit with ⟨rfl, hrest⟩
        cases before with
        | nil =>
            have hhere := cut_here (place + char.utf8Size) text
            rw [hrest] at hhere
            cases hcut
            exact hhere.cons fun left hleft => by rw [hchar, hleft]
        | cons second before =>
            rw [List.getLast?_cons_cons] at hcut
            exact (ih hrest hcut).cons fun left hleft => by rw [hchar, hleft]
      · rw [hchar] at hsplit
        rcases attach_cut hsplit with ⟨-, inner, hrest, hinner⟩
        rw [← hwidth] at hrest
        rw [← hinner] at hcut ⊢
        cases inner with
        | nil =>
            have hhere := cut_here (place + char.utf8Size) text
            rw [hrest] at hhere
            have hstop : cut = place + char.utf8Size := by
              cases hcut
              rfl
            rw [hstop]
            exact hhere.cons fun left hleft => by rw [hchar, ← hwidth, hleft]
        | cons second inner =>
            rw [stop_getLast?_attach hwidth] at hcut
            exact (ih hrest hcut).cons fun left hleft => by rw [hchar, ← hwidth, hleft]

end Lexeme

end SeedLogic
