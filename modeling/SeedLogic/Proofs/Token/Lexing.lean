import SeedLogic.Proofs.Formula.Cutting
import SeedLogic.Proofs.Text.Boundary

/-!
# Words and signs

The lexemes of a text are its words, each as long as it can be, and its other characters
that are not blank (`Lexeme.mem_split_iff`).  They stand one behind the other
(`Lexeme.pairwise_split`) and leave out nothing but blanks (`Lexeme.covered_iff`).
-/

namespace SeedLogic

open Text (byteWidth isBlank)

/-- A word in a text, with what is left and right of it.  It is as long as it can be. -/
structure WordIn (text left word right : List Char) : Prop where
  text_eq : text = left ++ (word ++ right)
  ne_nil : word ≠ []
  words : ∀ char ∈ word, isWordChar char = true
  before : ∀ last ∈ left.getLast?, isWordChar last = false
  behind : ∀ first ∈ right.head?, isWordChar first = false

namespace Lexeme

theorem stop_word (place : Nat) (word : List Char) :
    (Lexeme.word place word).stop = place + byteWidth word :=
  rfl

theorem stop_sign (place : Nat) (char : Char) :
    (Lexeme.sign place char).stop = place + char.utf8Size := by
  simp [stop, offset, chars]

/-- A lexeme is a word of a text or another character that is not blank, where the text
begins at a place. -/
def StandsIn (place : Nat) (text : List Char) : Lexeme → Prop
  | .word offset letters =>
      ∃ left right, WordIn text left letters right ∧ offset = place + byteWidth left
  | .sign offset char =>
      ∃ left right, text = left ++ char :: right ∧ offset = place + byteWidth left ∧
        isBlank char = false ∧ isWordChar char = false

/-! ## Texts apart -/

section Apart

variable {left right : List Char} {place : Nat} {lexeme : Lexeme}

/-- What stands in the left one of two texts that are apart stands in both joined. -/
theorem StandsIn.append_right (hapart : Apart left right) (hstands : lexeme.StandsIn place left) :
    lexeme.StandsIn place (left ++ right) := by
  cases lexeme with
  | sign offset char =>
      rcases hstands with ⟨front, back, rfl, hoffset, hkind⟩
      exact ⟨front, back ++ right, by simp, hoffset, hkind⟩
  | word offset word =>
      rcases hstands with ⟨front, back, ⟨rfl, hne, hwords, hbefore, hbehind⟩, hoffset⟩
      refine ⟨front, back ++ right, ⟨by simp, hne, hwords, hbefore, ?_⟩, hoffset⟩
      cases back with
      | cons first back => exact hbehind
      | nil =>
          -- The word is the last one of the left text.
          intro first hfirst
          have hlast : word.getLast hne ∈ (front ++ (word ++ [])).getLast? := by
            simp [List.getLast?_append, List.getLast?_eq_some_getLast hne]
          exact hapart _ hlast first hfirst (hwords _ (List.getLast_mem hne))

/-- What stands in the right one of two texts that are apart stands in both joined. -/
theorem StandsIn.append_left (hapart : Apart left right)
    (hstands : lexeme.StandsIn (place + byteWidth left) right) :
    lexeme.StandsIn place (left ++ right) := by
  cases lexeme with
  | sign offset char =>
      rcases hstands with ⟨front, back, rfl, rfl, hkind⟩
      exact ⟨left ++ front, back, by simp, by simp [Nat.add_assoc], hkind⟩
  | word offset word =>
      rcases hstands with ⟨front, back, ⟨rfl, hne, hwords, hbefore, hbehind⟩, rfl⟩
      refine ⟨left ++ front, back, ⟨by simp, hne, hwords, ?_, hbehind⟩, by simp [Nat.add_assoc]⟩
      rcases List.eq_nil_or_concat front with rfl | ⟨others, last, rfl⟩
      · -- The word is the first one of the right text.
        intro last hlast
        rcases List.exists_cons_of_ne_nil hne with ⟨first, rest, rfl⟩
        rw [List.append_nil] at hlast
        cases hword : isWordChar last with
        | false => rfl
        | true =>
            have hfirst := hapart last hlast first rfl hword
            rw [hwords first List.mem_cons_self] at hfirst
            cases hfirst
      · intro other hother
        apply hbefore
        simpa using hother

/-- What stands in two texts that are apart, joined, stands in one of them. -/
theorem StandsIn.of_append (hapart : Apart left right)
    (hstands : lexeme.StandsIn place (left ++ right)) :
    lexeme.StandsIn place left ∨ lexeme.StandsIn (place + byteWidth left) right := by
  cases lexeme with
  | sign offset char =>
      rcases hstands with ⟨front, back, htext, rfl, hkind⟩
      rcases List.append_eq_append_iff.mp htext with ⟨middle, rfl, rfl⟩ | ⟨middle, rfl, hback⟩
      · exact .inr ⟨middle, back, rfl, by simp [Nat.add_assoc], hkind⟩
      · cases middle with
        | nil =>
            rw [List.nil_append] at hback
            exact .inr ⟨[], back, hback.symm, by simp, hkind⟩
        | cons first middle =>
            cases hback
            exact .inl ⟨front, middle, rfl, rfl, hkind⟩
  | word offset word =>
      rcases hstands with ⟨front, back, ⟨htext, hne, hwords, hbefore, hbehind⟩, rfl⟩
      rcases List.append_eq_append_iff.mp htext with ⟨middle, rfl, rfl⟩ | ⟨middle, rfl, hword⟩
      · refine .inr ⟨middle, back, ⟨rfl, hne, hwords, ?_, hbehind⟩, by simp [Nat.add_assoc]⟩
        intro last hlast
        apply hbefore
        rw [List.getLast?_append, hlast]
        rfl
      · rcases List.append_eq_append_iff.mp hword with ⟨rest, rfl, rfl⟩ | ⟨rest, rfl, rfl⟩
        · refine .inl ⟨front, rest, ⟨rfl, hne, hwords, hbefore, ?_⟩, rfl⟩
          intro first hfirst
          apply hbehind
          rw [List.head?_append, hfirst]
          rfl
        · -- The word would run from one text into the other.
          rw [List.forall_mem_append] at hwords
          rcases List.eq_nil_or_concat middle with rfl | ⟨others, last, rfl⟩
          · rw [List.nil_append] at hne
            refine .inr ⟨[], back, ⟨rfl, hne, hwords.2, by simp, hbehind⟩, by simp⟩
          · cases rest with
            | nil =>
                rw [List.append_nil] at hne
                exact .inl ⟨front, [], ⟨by simp, by simp, by simpa using hwords.1, hbefore,
                  by simp⟩, rfl⟩
            | cons first rest =>
                have hlast := hwords.1 last (by simp)
                have hfirst := hapart last (by simp) first rfl hlast
                rw [hwords.2 first List.mem_cons_self] at hfirst
                cases hfirst

theorem standsIn_append_iff (hapart : Apart left right) :
    lexeme.StandsIn place (left ++ right) ↔
      lexeme.StandsIn place left ∨ lexeme.StandsIn (place + byteWidth left) right := by
  constructor
  · exact StandsIn.of_append hapart
  · rintro (hleft | hright)
    · exact hleft.append_right hapart
    · exact hright.append_left hapart

end Apart

/-! ## Short texts -/

theorem not_standsIn_nil {place : Nat} {lexeme : Lexeme} : ¬ lexeme.StandsIn place [] := by
  cases lexeme with
  | sign offset char => simp [StandsIn]
  | word offset word =>
      rintro ⟨left, right, hword, -⟩
      have htext := hword.text_eq.symm
      simp [hword.ne_nil] at htext

/-- A character that is in no word is a lexeme unless it is blank. -/
theorem standsIn_singleton_iff {char : Char} (hchar : isWordChar char = false) {place : Nat}
    {lexeme : Lexeme} :
    lexeme.StandsIn place [char] ↔ isBlank char = false ∧ lexeme = .sign place char := by
  cases lexeme with
  | sign offset sign =>
      constructor
      · rintro ⟨left, right, htext, rfl, hkind⟩
        cases left with
        | nil =>
            cases htext
            exact ⟨hkind.1, rfl⟩
        | cons first left => simp at htext
      · rintro ⟨hblank, hsign⟩
        cases hsign
        exact ⟨[], [], rfl, rfl, hblank, hchar⟩
  | word offset word =>
      constructor
      · rintro ⟨left, right, hword, -⟩
        rcases List.exists_mem_of_ne_nil _ hword.ne_nil with ⟨first, hfirst⟩
        have hmem : first ∈ [char] := by
          rw [hword.text_eq]
          simp [hfirst]
        rw [← List.mem_singleton.mp hmem, hword.words first hfirst] at hchar
        cases hchar
      · rintro ⟨-, hsign⟩
        cases hsign

/-- A text of word characters alone is one lexeme. -/
theorem standsIn_word_iff {text : List Char} (hne : text ≠ [])
    (hwords : ∀ char ∈ text, isWordChar char = true) {place : Nat} {lexeme : Lexeme} :
    lexeme.StandsIn place text ↔ lexeme = .word place text := by
  cases lexeme with
  | sign offset sign =>
      constructor
      · rintro ⟨left, right, rfl, -, -, hsign⟩
        rw [hwords sign (by simp)] at hsign
        cases hsign
      · intro heq
        cases heq
  | word offset word =>
      constructor
      · rintro ⟨left, right, ⟨rfl, -, -, hbefore, hbehind⟩, rfl⟩
        obtain rfl : left = [] := by
          rcases List.eq_nil_or_concat left with rfl | ⟨others, last, rfl⟩
          · rfl
          · have hlast := hbefore last (by simp)
            rw [hwords last (by simp)] at hlast
            cases hlast
        obtain rfl : right = [] := by
          cases right with
          | nil => rfl
          | cons first right =>
              have hfirst := hbehind first rfl
              rw [hwords first (by simp)] at hfirst
              cases hfirst
        simp
      · intro heq
        cases heq
        exact ⟨[], [], ⟨by simp, hne, hwords, by simp, by simp⟩, rfl⟩

/-! ## From left to right -/

/-- A text is cut from the left: blanks are left out, signs stand alone, and a word goes on
as long as there are word characters. -/
inductive Lexed : Nat → List Char → List Lexeme → Prop where
  | nil {place : Nat} : Lexed place [] []
  | blank {place : Nat} {char : Char} {text : List Char} {lexemes : List Lexeme} :
      isBlank char = true → isWordChar char = false →
      Lexed (place + char.utf8Size) text lexemes → Lexed place (char :: text) lexemes
  | sign {place : Nat} {char : Char} {text : List Char} {lexemes : List Lexeme} :
      isBlank char = false → isWordChar char = false →
      Lexed (place + char.utf8Size) text lexemes →
      Lexed place (char :: text) (.sign place char :: lexemes)
  | word {place : Nat} {word text : List Char} {lexemes : List Lexeme} :
      word ≠ [] → (∀ char ∈ word, isWordChar char = true) →
      (∀ first ∈ text.head?, isWordChar first = false) →
      Lexed (place + byteWidth word) text lexemes →
      Lexed place (word ++ text) (.word place word :: lexemes)

theorem exists_lexed (place : Nat) (text : List Char) : ∃ lexemes, Lexed place text lexemes := by
  match text with
  | [] => exact ⟨[], .nil⟩
  | char :: text =>
      cases hword : isWordChar char with
      | false =>
          rcases exists_lexed (place + char.utf8Size) text with ⟨lexemes, hlexemes⟩
          cases hblank : isBlank char with
          | true => exact ⟨lexemes, .blank hblank hword hlexemes⟩
          | false => exact ⟨_, .sign hblank hword hlexemes⟩
      | true =>
          have htake : (char :: text).takeWhile isWordChar = char :: text.takeWhile isWordChar :=
            List.takeWhile_cons_of_pos hword
          have hshorter : (text.dropWhile isWordChar).length ≤ text.length :=
            (List.dropWhile_suffix _).length_le
          rcases exists_lexed (place + byteWidth (char :: text.takeWhile isWordChar))
            (text.dropWhile isWordChar) with ⟨lexemes, hlexemes⟩
          have hlexed : Lexed place
              ((char :: text.takeWhile isWordChar) ++ text.dropWhile isWordChar)
              (.word place (char :: text.takeWhile isWordChar) :: lexemes) := by
            refine .word (List.cons_ne_nil _ _) ?_ ?_ hlexemes
            · rw [← htake]
              exact List.all_eq_true.mp List.all_takeWhile
            · intro first hfirst
              have hnot := List.head?_dropWhile_not isWordChar text
              rw [Option.mem_def.mp hfirst] at hnot
              simpa using hnot
          rw [List.cons_append, List.takeWhile_append_dropWhile] at hlexed
          exact ⟨_, hlexed⟩
termination_by text.length

section Lexed

variable {place : Nat} {text : List Char} {lexemes : List Lexeme}

/-- The lexemes that are cut from the left are those of the text. -/
theorem Lexed.eq_split (hlexed : Lexed place text lexemes) : lexemes = split place text := by
  induction hlexed with
  | nil => rfl
  | blank hblank _ _ ih => rw [split_cons, if_pos hblank, ih]
  | sign hblank hword _ ih =>
      rw [split_cons, hblank, hword, ih]
      rfl
  | @word place word text lexemes hne hwords hbehind _ ih =>
      have hapart : Apart word text := fun _ _ first hfirst _ => hbehind first hfirst
      rw [split_append hapart, split_eq_word hwords hne, ih]
      rfl

theorem lexed_split (place : Nat) (text : List Char) : Lexed place text (split place text) := by
  rcases exists_lexed place text with ⟨lexemes, hlexed⟩
  rwa [hlexed.eq_split] at hlexed

/-- The lexemes of a text are what stands in it. -/
theorem Lexed.mem_iff (hlexed : Lexed place text lexemes) {lexeme : Lexeme} :
    lexeme ∈ lexemes ↔ lexeme.StandsIn place text := by
  induction hlexed with
  | nil => simp [not_standsIn_nil]
  | @blank place char text lexemes hblank hword _ ih =>
      have happend : lexeme.StandsIn place ([char] ++ text) ↔ _ :=
        standsIn_append_iff (apart_singleton hword)
      rw [ih]
      simpa [standsIn_singleton_iff hword, hblank] using happend.symm
  | @sign place char text lexemes hblank hword _ ih =>
      have happend : lexeme.StandsIn place ([char] ++ text) ↔ _ :=
        standsIn_append_iff (apart_singleton hword)
      rw [List.mem_cons, ih]
      simpa [standsIn_singleton_iff hword, hblank] using happend.symm
  | @word place word text lexemes hne hwords hbehind _ ih =>
      have hapart : Apart word text := fun _ _ first hfirst _ => hbehind first hfirst
      rw [List.mem_cons, ih, standsIn_append_iff hapart, standsIn_word_iff hne hwords]

/-- Each lexeme ends before the next one begins. -/
theorem Lexed.pairwise (hlexed : Lexed place text lexemes) :
    lexemes.Pairwise fun first second => first.stop ≤ second.offset := by
  induction hlexed with
  | nil => exact .nil
  | blank _ _ _ ih => exact ih
  | sign _ _ hrest ih =>
      refine .cons (fun second hsecond => ?_) ih
      rw [hrest.eq_split] at hsecond
      simpa [stop, offset, chars] using le_offset_of_mem_split hsecond
  | word _ _ _ hrest ih =>
      refine .cons (fun second hsecond => ?_) ih
      rw [hrest.eq_split] at hsecond
      exact le_offset_of_mem_split hsecond

/-- A place behind the first of some lexemes is in another one or in none. -/
theorem covered_behind_iff {first : Lexeme} {start stop : Nat} (hbehind : first.stop ≤ start)
    (hplace : start < stop) :
    (∃ lexeme ∈ first :: lexemes, lexeme.offset ≤ start ∧ stop ≤ lexeme.stop) ↔
      ∃ lexeme ∈ lexemes, lexeme.offset ≤ start ∧ stop ≤ lexeme.stop := by
  rw [List.exists_mem_cons_iff]
  constructor
  · rintro (⟨-, hstop⟩ | hlater)
    · exact absurd (Nat.lt_of_lt_of_le hplace hstop) (Nat.not_lt_of_le hbehind)
    · exact hlater
  · exact .inr

/-- A character of a text is in a lexeme unless it is blank. -/
theorem Lexed.covered_iff (hlexed : Lexed place text lexemes) {left right : List Char}
    {char : Char} (htext : text = left ++ char :: right) :
    isBlank char = false ↔ ∃ lexeme ∈ lexemes, lexeme.offset ≤ place + byteWidth left ∧
      place + byteWidth left + char.utf8Size ≤ lexeme.stop := by
  have hpos : ∀ start, start < start + char.utf8Size := fun start =>
    Nat.lt_add_of_pos_right char.utf8Size_pos
  induction hlexed generalizing left with
  | nil => simp at htext
  | @blank place first text lexemes hblank _ hrest ih =>
      cases left with
      | nil =>
          cases htext
          simp only [hblank, Bool.true_eq_false, false_iff, not_exists, not_and]
          intro lexeme hmem hle
          rw [hrest.eq_split] at hmem
          have hlater := le_offset_of_mem_split hmem
          have hwidth := hpos place
          rw [Text.byteWidth_nil] at hle
          omega
      | cons second left =>
          cases htext
          refine (ih rfl).trans ?_
          rw [Text.byteWidth_cons, Nat.add_assoc place]
  | @sign place first text lexemes hblank _ hrest ih =>
      cases left with
      | nil =>
          cases htext
          simp [hblank, offset, stop_sign]
      | cons second left =>
          cases htext
          have hbehind : (Lexeme.sign place first).stop ≤ place + byteWidth (first :: left) := by
            rw [stop_sign, Text.byteWidth_cons]
            omega
          refine (ih rfl).trans ?_
          rw [covered_behind_iff hbehind (hpos _), Text.byteWidth_cons, Nat.add_assoc place]
  | @word place word text lexemes hne hwords _ hrest ih =>
      -- The character is behind the word, or else it is one of the word's.
      rcases List.append_eq_append_iff.mp htext with ⟨middle, rfl, hbehind⟩ | ⟨middle, rfl, hback⟩
      · have hstop : (Lexeme.word place word).stop ≤ place + byteWidth (word ++ middle) := by
          rw [stop_word, Text.byteWidth_append]
          omega
        refine (ih hbehind).trans ?_
        rw [covered_behind_iff hstop (hpos _), Text.byteWidth_append, Nat.add_assoc place]
      · cases middle with
        | nil =>
            have hfirst : text = [] ++ char :: right := hback.symm
            have hstop : (Lexeme.word place (left ++ [])).stop ≤ place + byteWidth left := by
              rw [List.append_nil]
              exact Nat.le_refl _
            refine (ih hfirst).trans ?_
            rw [covered_behind_iff hstop (hpos _), List.append_nil, Text.byteWidth_nil,
              Nat.add_zero]
        | cons first middle =>
            cases hback
            have hchar := isBlank_of_isWordChar (hwords char (by simp))
            simp only [hchar, true_iff]
            refine ⟨_, List.mem_cons_self, Nat.le_add_right _ _, ?_⟩
            rw [stop_word, Text.byteWidth_append, Text.byteWidth_cons]
            omega

end Lexed

/-! ## Lexemes of texts -/

/-- The lexemes of a text are its words and its other characters that are not blank. -/
theorem mem_split_iff {place : Nat} {text : List Char} {lexeme : Lexeme} :
    lexeme ∈ split place text ↔ lexeme.StandsIn place text :=
  (lexed_split place text).mem_iff

/-- The lexemes of a text stand one behind the other. -/
theorem pairwise_split (place : Nat) (text : List Char) :
    (split place text).Pairwise fun first second => first.stop ≤ second.offset :=
  (lexed_split place text).pairwise

/-- The characters of a text that are in no lexeme are the blank ones. -/
theorem covered_iff (place : Nat) (left right : List Char) (char : Char) :
    isBlank char = false ↔ ∃ lexeme ∈ split place (left ++ char :: right),
      lexeme.offset ≤ place + byteWidth left ∧
        place + byteWidth left + char.utf8Size ≤ lexeme.stop :=
  (lexed_split place _).covered_iff rfl

end Lexeme

end SeedLogic
