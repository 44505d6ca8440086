import SeedLogic.Proofs.Formula.Describing
import SeedLogic.Proofs.Formula.Slicing
import SeedLogic.Proofs.Token.Lexing

/-!
# Tokens of texts

What the tokens of a text are is said of the text alone: a token is a sign, or a word as
long as it can be (`Token.StandsIn`), and a text has none only for a character that may not
stand in it or a number that is too large (`Fault.StandsIn`).  Tokenizing finds just these
tokens, or else the first of these faults, and reads texts with a blank between them as
each of them is read alone (`tokenize_exact`).
-/

namespace SeedLogic

open Text (byteWidth isBlank isBoundary decimalValue)

/-- The signs of requirement texts. -/
def signs : List Char :=
  ['(', ')', ',', '&', '|', '!']

/-- May a character stand in a text? -/
def MayStand (char : Char) : Prop :=
  isBlank char = true ∨ char ∈ signs ∨ isWordChar char = true

/-- A token of a text, before its end mark. -/
inductive Token.StandsIn (text : List Char) : Token → Prop where
  | sign {left right : List Char} {char : Char} {kind : TokenKind} :
      text = left ++ char :: right → Lexeme.signKind? char = some kind →
      StandsIn text ⟨kind, byteWidth left, char.toString⟩
  | number {left word right : List Char} :
      WordIn text left word right → word.all Char.isDigit = true →
      decimalValue word < UInt32.size →
      StandsIn text ⟨.number (decimalValue word), byteWidth left, String.ofList word⟩
  | name {left word right : List Char} :
      WordIn text left word right → word.all Char.isDigit = false →
      StandsIn text ⟨.ident (String.ofList word), byteWidth left, String.ofList word⟩

/-- A reason for which a text has no tokens, and its place. -/
inductive Fault.StandsIn (text : List Char) : Fault → Prop where
  | character {left right : List Char} {char : Char} :
      text = left ++ char :: right → ¬ MayStand char →
      StandsIn text ⟨⟨byteWidth left, char.utf8Size⟩, .unexpectedCharacter char⟩
  | number {left word right : List Char} :
      WordIn text left word right → word.all Char.isDigit = true →
      UInt32.size ≤ decimalValue word →
      StandsIn text ⟨⟨byteWidth left, byteWidth word⟩, .numberOutOfRange⟩

/-! ## Reading a lexeme -/

namespace Lexeme

theorem numberLimit_eq : numberLimit = UInt32.size :=
  rfl

theorem signKind?_eq_none_iff {char : Char} : signKind? char = none ↔ char ∉ signs := by
  unfold signKind? signs
  split <;> simp_all

/-- Signs are no blanks and in no word. -/
theorem kind_of_signKind? {char : Char} {kind : TokenKind} (hkind : signKind? char = some kind) :
    isBlank char = false ∧ isWordChar char = false := by
  unfold signKind? at hkind
  split at hkind <;> first | exact ⟨rfl, rfl⟩ | cases hkind

theorem signKind?_ne_eof (char : Char) : signKind? char ≠ some .eof := by
  unfold signKind?
  split <;> exact nofun

variable {text : List Char}

/-- The lexemes of a text are read as its tokens. -/
theorem exists_token_iff {token : Token} :
    (∃ lexeme ∈ split 0 text, lexeme.toToken = .ok token) ↔ token.StandsIn text := by
  simp only [mem_split_iff]
  constructor
  · rintro ⟨lexeme, hstands, htoken⟩
    cases lexeme with
    | sign offset char =>
        rcases hstands with ⟨left, right, htext, rfl, -⟩
        rw [Nat.zero_add] at htoken
        rw [toToken] at htoken
        split at htoken
        case h_1 kind hkind =>
          cases htoken
          exact .sign htext hkind
        case h_2 => cases htoken
    | word offset word =>
        rcases hstands with ⟨left, right, hword, rfl⟩
        rw [Nat.zero_add] at htoken
        simp only [toToken] at htoken
        split at htoken
        case isTrue hdigits =>
          split at htoken
          case isTrue hlimit =>
            cases htoken
            exact .number hword hdigits hlimit
          case isFalse => cases htoken
        case isFalse hdigits =>
          cases htoken
          exact .name hword (Bool.not_eq_true _ ▸ hdigits)
  · intro hstands
    cases hstands with
    | @sign left right char kind htext hkind =>
        refine ⟨.sign (byteWidth left) char, ⟨left, right, htext, ?_, kind_of_signKind? hkind⟩, ?_⟩
        · rw [Nat.zero_add]
        · rw [toToken, hkind]
    | @number left word right hword hdigits hlimit =>
        refine ⟨.word (byteWidth left) word, ⟨left, right, hword, ?_⟩, ?_⟩
        · rw [Nat.zero_add]
        · simp only [toToken]
          rw [if_pos hdigits, numberLimit_eq, if_pos hlimit]
    | @name left word right hword hdigits =>
        refine ⟨.word (byteWidth left) word, ⟨left, right, hword, ?_⟩, ?_⟩
        · rw [Nat.zero_add]
        · simp only [toToken]
          rw [hdigits]
          rfl

/-- The lexemes of a text that are no tokens are its faults. -/
theorem exists_fault_iff {fault : Fault} :
    (∃ lexeme ∈ split 0 text, lexeme.toToken = .error fault) ↔ fault.StandsIn text := by
  simp only [mem_split_iff]
  constructor
  · rintro ⟨lexeme, hstands, hfault⟩
    cases lexeme with
    | sign offset char =>
        rcases hstands with ⟨left, right, htext, rfl, hblank, hword⟩
        rw [Nat.zero_add] at hfault
        rw [toToken] at hfault
        split at hfault
        case h_1 => cases hfault
        case h_2 hkind =>
          cases hfault
          refine .character htext ?_
          rw [MayStand, hblank, hword]
          simpa using signKind?_eq_none_iff.mp hkind
    | word offset word =>
        rcases hstands with ⟨left, right, hword, rfl⟩
        rw [Nat.zero_add] at hfault
        simp only [toToken] at hfault
        split at hfault
        case isTrue hdigits =>
          split at hfault
          case isTrue => cases hfault
          case isFalse hlimit =>
            cases hfault
            rw [Text.utf8ByteSize_ofList]
            exact .number hword hdigits (Nat.le_of_not_lt hlimit)
        case isFalse => cases hfault
  · intro hstands
    cases hstands with
    | @character left right char htext hchar =>
        rw [MayStand, not_or, not_or, Bool.not_eq_true, Bool.not_eq_true] at hchar
        refine ⟨.sign (byteWidth left) char,
          ⟨left, right, htext, ?_, hchar.1, hchar.2.2⟩, ?_⟩
        · rw [Nat.zero_add]
        · rw [toToken, signKind?_eq_none_iff.mpr hchar.2.1]
    | @number left word right hword hdigits hlimit =>
        refine ⟨.word (byteWidth left) word, ⟨left, right, hword, ?_⟩, ?_⟩
        · rw [Nat.zero_add]
        · simp only [toToken]
          rw [if_pos hdigits, numberLimit_eq, if_neg (Nat.not_lt_of_le hlimit),
            Text.utf8ByteSize_ofList]

end Lexeme

theorem Token.StandsIn.kind_ne {text : List Char} {token : Token} (hstands : token.StandsIn text) :
    token.kind ≠ .eof := by
  cases hstands with
  | sign _ hkind =>
      rintro rfl
      exact Lexeme.signKind?_ne_eof _ hkind
  | number => exact nofun
  | name => exact nofun

/-! ## Scanning -/

/-- A text has tokens unless it has a fault. -/
theorem exists_scan_iff {text : String} :
    (∃ tokens, scan text = .ok tokens) ↔ ∀ fault : Fault, ¬ fault.StandsIn text.toList := by
  unfold scan
  rw [Outcome.exists_mapM_iff]
  constructor
  · intro hall fault hstands
    rcases Lexeme.exists_fault_iff.mpr hstands with ⟨lexeme, hmem, hfault⟩
    rcases hall lexeme hmem with ⟨token, htoken⟩
    cases htoken.symm.trans hfault
  · intro hnone lexeme hmem
    cases hread : lexeme.toToken with
    | ok token => exact ⟨token, rfl⟩
    | error fault => exact absurd (Lexeme.exists_fault_iff.mp ⟨lexeme, hmem, hread⟩) (hnone fault)

/-- A text has no fault when its characters may stand in it and its numbers are small. -/
theorem forall_not_standsIn_iff {text : List Char} :
    (∀ fault : Fault, ¬ fault.StandsIn text) ↔
      (∀ char ∈ text, MayStand char) ∧ ∀ left word right, WordIn text left word right →
        word.all Char.isDigit = true → decimalValue word < UInt32.size := by
  constructor
  · intro hnone
    constructor
    · intro char hchar
      rcases List.append_of_mem hchar with ⟨left, right, htext⟩
      by_contra hnot
      exact hnone _ (.character htext hnot)
    · intro left word right hword hdigits
      by_contra hlimit
      exact hnone _ (.number hword hdigits (Nat.le_of_not_lt hlimit))
  · rintro ⟨hchars, hnumbers⟩ fault hstands
    cases hstands with
    | @character left right char htext hnot =>
        refine hnot (hchars char ?_)
        rw [htext]
        exact List.mem_append_right _ List.mem_cons_self
    | number hword hdigits hlimit =>
        exact Nat.not_lt_of_le hlimit (hnumbers _ _ _ hword hdigits)

/-- The first fault of a text is the one that is found. -/
theorem first_of_scan {text : String} {fault : Fault} (hscan : scan text = .error fault) :
    fault.StandsIn text.toList ∧
      ∀ other : Fault, other.StandsIn text.toList → fault.span.offset ≤ other.span.offset := by
  rcases Outcome.exists_first_of_mapM_eq_error hscan with
    ⟨before, lexeme, behind, hsplit, hbefore, hfault⟩
  refine ⟨Lexeme.exists_fault_iff.mp ⟨lexeme, ?_, hfault⟩, fun other hother => ?_⟩
  · rw [hsplit]
    exact List.mem_append_right _ List.mem_cons_self
  rcases Lexeme.exists_fault_iff.mpr hother with ⟨later, hlater, hread⟩
  rw [Lexeme.offset_of_toToken_eq_error hfault, Lexeme.offset_of_toToken_eq_error hread]
  have hordered := Lexeme.pairwise_split 0 text.toList
  rw [hsplit, List.pairwise_append, List.pairwise_cons] at hordered
  rw [hsplit, List.mem_append, List.mem_cons] at hlater
  rcases hlater with hlater | rfl | hlater
  · rcases hbefore later hlater with ⟨token, htoken⟩
    cases htoken.symm.trans hread
  · exact Nat.le_refl _
  · exact Nat.le_trans (Nat.le_add_right _ _) (hordered.2.1.1 later hlater)

/-- The tokens of a text, before its end mark. -/
structure Token.Exact (text : String) (tokens : List Token) : Prop where
  /-- They are its signs and its words. -/
  mem_iff : ∀ token : Token, token ∈ tokens ↔ token.StandsIn text.toList
  kind_ne : ∀ token ∈ tokens, token.kind ≠ .eof
  /-- Each token begins behind those before it, and the end mark behind all of them. -/
  ascending : (tokens ++ [endOf text]).Pairwise fun first second =>
    first.offset < second.offset ∧ first.stop ≤ second.offset
  boundaries : ∀ token ∈ tokens,
    isBoundary token.offset text.toList = true ∧ isBoundary token.stop text.toList = true
  /-- They cover all characters but the blank ones. -/
  covers : ∀ left char right, text.toList = left ++ char :: right →
    (isBlank char = false ↔ ∃ token ∈ tokens, token.offset ≤ byteWidth left ∧
      byteWidth left + char.utf8Size ≤ token.stop)

theorem Lexeme.offset_lt_stop {place : Nat} {text : List Char} {lexeme : Lexeme}
    (hmem : lexeme ∈ split place text) : lexeme.offset < lexeme.stop := by
  cases lexeme with
  | sign offset char =>
      rw [stop_sign]
      exact Nat.lt_add_of_pos_right char.utf8Size_pos
  | word offset word =>
      rw [stop_word]
      apply Nat.lt_add_of_pos_right
      apply Nat.pos_of_ne_zero
      intro hwidth
      exact (isWordChar_of_mem_split hmem).1 (Text.eq_nil_of_byteWidth hwidth)

section Exact

variable {text : String} {tokens : List Token} (hscan : scan text = .ok tokens)
include hscan

/-- A token has the place of a lexeme of the text. -/
theorem exists_lexeme_of_scan {token : Token} (htoken : token ∈ tokens) :
    ∃ lexeme ∈ Lexeme.split 0 text.toList,
      token.offset = lexeme.offset ∧ token.stop = lexeme.stop := by
  rcases Outcome.exists_of_mem_mapM hscan htoken with ⟨lexeme, hmem, hlexeme⟩
  exact ⟨lexeme, hmem, Lexeme.place_of_toToken hlexeme⟩

/-- A token begins and ends at boundaries of the text, and is not empty. -/
theorem bounds_of_scan {token : Token} (htoken : token ∈ tokens) :
    isBoundary token.offset text.toList = true ∧ isBoundary token.stop text.toList = true ∧
      token.offset < token.stop ∧ token.stop ≤ text.utf8ByteSize := by
  rcases exists_lexeme_of_scan hscan htoken with ⟨lexeme, hmem, hoffset, hstop⟩
  have hlt := Lexeme.offset_lt_stop hmem
  rcases Lexeme.exists_of_mem_split hmem with ⟨left, right, htext, hplace⟩
  rw [Nat.zero_add] at hplace
  rw [hoffset, hstop, ← Text.byteWidth_toList]
  rw [Lexeme.stop, hplace] at hlt ⊢
  rw [htext]
  refine ⟨Text.isBoundary_append _ _, ?_, hlt, ?_⟩
  · rw [← Text.byteWidth_append, ← List.append_assoc]
    exact Text.isBoundary_append _ _
  · rw [Text.byteWidth_append, Text.byteWidth_append]
    omega

/-- Each token ends before the next one begins. -/
theorem pairwise_of_scan : tokens.Pairwise fun first second => first.stop ≤ second.offset := by
  have hplaces : tokens.map (fun token => (token.offset, token.stop)) =
      (Lexeme.split 0 text.toList).map fun lexeme => (lexeme.offset, lexeme.stop) := by
    symm
    rw [← List.forall₂_eq_eq_eq, List.forall₂_map_left_iff, List.forall₂_map_right_iff]
    refine (Outcome.mapM_eq_ok.mp hscan).imp fun lexeme token htoken => ?_
    rw [(Lexeme.place_of_toToken htoken).1, (Lexeme.place_of_toToken htoken).2]
  have hlexemes := Lexeme.pairwise_split 0 text.toList
  rw [← List.pairwise_map (f := fun lexeme : Lexeme => (lexeme.offset, lexeme.stop))
    (R := fun first second => first.2 ≤ second.1), ← hplaces, List.pairwise_map] at hlexemes
  exact hlexemes

/-- A character of a text is in a token unless it is blank. -/
theorem covered_iff_of_scan {left right : List Char} {char : Char}
    (htext : text.toList = left ++ char :: right) :
    isBlank char = false ↔ ∃ token ∈ tokens, token.offset ≤ byteWidth left ∧
      byteWidth left + char.utf8Size ≤ token.stop := by
  have hcovered := Lexeme.covered_iff 0 left right char
  rw [← htext, Nat.zero_add] at hcovered
  rw [hcovered]
  constructor
  · rintro ⟨lexeme, hmem, hstart, hstop⟩
    rcases List.mem_iff_getElem?.mp hmem with ⟨id, hid⟩
    rcases Outcome.getElem?_mapM hscan hid with ⟨token, htoken, hlexeme⟩
    rcases Lexeme.place_of_toToken hlexeme with ⟨hoffset, hend⟩
    exact ⟨token, List.mem_of_getElem? htoken, hoffset ▸ hstart, hend ▸ hstop⟩
  · rintro ⟨token, htoken, hstart, hstop⟩
    rcases exists_lexeme_of_scan hscan htoken with ⟨lexeme, hmem, hoffset, hend⟩
    exact ⟨lexeme, hmem, hoffset ▸ hstart, hend ▸ hstop⟩

/-- What is scanned are the tokens of the text. -/
theorem exact_of_scan : Token.Exact text tokens := by
  have hmem : ∀ token : Token, token ∈ tokens ↔ token.StandsIn text.toList := by
    intro token
    rw [Outcome.mem_mapM_iff hscan]
    exact Lexeme.exists_token_iff
  constructor
  case mem_iff => exact hmem
  case kind_ne => exact fun token htoken => ((hmem token).mp htoken).kind_ne
  case ascending =>
    rw [List.pairwise_append]
    refine ⟨?_, List.pairwise_singleton _ _, ?_⟩
    · apply (pairwise_of_scan hscan).imp_of_mem
      intro first second hfirst _ hle
      exact ⟨Nat.lt_of_lt_of_le (bounds_of_scan hscan hfirst).2.2.1 hle, hle⟩
    · intro token htoken last hlast
      rw [List.mem_singleton.mp hlast]
      have hplace := (bounds_of_scan hscan htoken).2.2
      exact ⟨Nat.lt_of_lt_of_le hplace.1 hplace.2, hplace.2⟩
  case boundaries =>
    intro token htoken
    exact ⟨(bounds_of_scan hscan htoken).1, (bounds_of_scan hscan htoken).2.1⟩
  case covers => exact fun left char right htext => covered_iff_of_scan hscan htext

end Exact

/-! ## Tokenizing -/

/-- Texts that show faces are tokenized as these faces and the end mark. -/
theorem exists_tokenize_of_shown {text : String} {faces : List Face}
    (hshown : Shown text.toList faces) :
    ∃ tokens, tokenize text = .ok tokens ∧
      tokens.map Token.kind = faces.map Face.kind ++ [.eof] := by
  rcases exists_scan_of_shown hshown with ⟨tokens, hscan, rfl⟩
  refine ⟨tokens ++ [Token.endOf text], tokenize_eq_ok_iff.mpr hscan, ?_⟩
  rw [List.map_append, List.map_map]
  rfl

theorem exists_scan_of_tokenize {text : String} {tokens : List Token}
    (htokens : tokenize text = .ok tokens) :
    ∃ words, tokens = words ++ [Token.endOf text] ∧ scan text = .ok words := by
  unfold tokenize at htokens
  cases hscan : scan text with
  | ok words =>
      rw [hscan] at htokens
      cases htokens
      exact ⟨words, rfl, rfl⟩
  | error fault =>
      rw [hscan] at htokens
      cases htokens

theorem exists_scan_of_tokenize_eq_error {text : String} {error : SyntaxError}
    (hfail : tokenize text = .error error) :
    ∃ fault, error = fault.inText text ∧ scan text = .error fault := by
  unfold tokenize at hfail
  cases hscan : scan text with
  | ok words =>
      rw [hscan] at hfail
      cases hfail
  | error fault =>
      rw [hscan] at hfail
      cases hfail
      exact ⟨fault, rfl, rfl⟩

theorem exists_tokenize_iff {text : String} :
    (∃ tokens, tokenize text = .ok tokens) ↔ ∃ words, scan text = .ok words := by
  constructor
  · rintro ⟨tokens, htokens⟩
    rcases exists_scan_of_tokenize htokens with ⟨words, -, hscan⟩
    exact ⟨words, hscan⟩
  · rintro ⟨words, hscan⟩
    exact ⟨_, tokenize_eq_ok_iff.mpr hscan⟩

/-- Faces that can be written are shown by their spellings, one by one. -/
theorem forall₂_shown_of_legible {faces : List Face} (hfaces : ∀ face ∈ faces, face.Legible) :
    List.Forall₂ Shown (faces.map fun face => face.text.toList)
      (faces.map fun face => [face]) := by
  rw [List.forall₂_map_left_iff, List.forall₂_map_right_iff, List.forall₂_same]
  exact fun face hface => (hfaces face hface).shown

section Joining

variable {text other : String} {words others : List Token}

/-- Behind a blank, a text is read as it is read alone. -/
theorem exists_tokenize_append (hscan : scan text = .ok words)
    (hother : scan other = .ok others) :
    ∃ joined, tokenize (text ++ " " ++ other) = .ok joined ∧
      joined.map Token.kind = words.map Token.kind ++ (others.map Token.kind ++ [.eof]) := by
  have hshown : Shown (text ++ " " ++ other).toList
      (words.map Token.face ++ others.map Token.face) := by
    rw [String.append_assoc, String.toList_append, String.toList_append]
    exact (shown_of_scan hscan).append (shown_of_scan hother).cons_blank (apart_of_first rfl)
  rcases exists_tokenize_of_shown hshown with ⟨joined, hjoined, hkinds⟩
  refine ⟨joined, hjoined, ?_⟩
  rw [hkinds, List.map_append, List.map_map, List.map_map, List.append_assoc]
  rfl

/-- The spellings of the tokens of a text, with blanks between them, are read as the text
is.  The end mark is spelled by nothing. -/
theorem exists_tokenize_intercalate (hscan : scan text = .ok words) :
    ∃ again, tokenize (" ".intercalate ((words ++ [Token.endOf text]).map Token.text)) =
        .ok again ∧ again.map Token.kind = words.map Token.kind ++ [.eof] := by
  have hpieces : List.Forall₂ Shown
      ((words ++ [Token.endOf text]).map (String.toList ∘ Token.text))
      ((words.map Token.face).map (fun face => [face]) ++ [[]]) := by
    have hwords := forall₂_shown_of_legible (legible_of_scan hscan)
    rw [List.map_map] at hwords
    rw [List.map_append]
    exact List.rel_append hwords (.cons .nil .nil)
  have hshown : Shown (" ".intercalate ((words ++ [Token.endOf text]).map Token.text)).toList
      (words.map Token.face) := by
    have hjoined := Shown.intercalate hpieces
    rw [List.flatten_append, ← List.flatMap_def, List.flatMap_singleton'] at hjoined
    rw [String.toList_intercalate, List.map_map]
    simpa using hjoined
  rcases exists_tokenize_of_shown hshown with ⟨again, hagain, hkinds⟩
  refine ⟨again, hagain, ?_⟩
  rw [hkinds, List.map_map]
  rfl

end Joining

/-- Tokenizing is exact, and blanks between texts keep them apart. -/
theorem tokenize_exact (text : String) :
    ((∃ tokens, tokenize text = .ok tokens) ↔
      (∀ char ∈ text.toList, MayStand char) ∧
        ∀ left word right, WordIn text.toList left word right →
          word.all Char.isDigit = true → decimalValue word < UInt32.size) ∧
    (∀ error, tokenize text = .error error → ∃ fault : Fault, error = fault.inText text ∧
      fault.StandsIn text.toList ∧
        ∀ other : Fault, other.StandsIn text.toList → error.offset ≤ other.span.offset) ∧
    (∀ tokens, tokenize text = .ok tokens →
      (∃ words, tokens = words ++ [Token.endOf text] ∧ Token.Exact text words) ∧
      (∀ other others, tokenize other = .ok others →
        ∃ joined, tokenize (text ++ " " ++ other) = .ok joined ∧
          joined.map Token.kind = (tokens.map Token.kind).dropLast ++ others.map Token.kind) ∧
      ∃ again, tokenize (" ".intercalate (tokens.map Token.text)) = .ok again ∧
        again.map Token.kind = tokens.map Token.kind) := by
  refine ⟨?_, fun error hfail => ?_, fun tokens htokens => ?_⟩
  · rw [exists_tokenize_iff, exists_scan_iff, forall_not_standsIn_iff]
  · rcases exists_scan_of_tokenize_eq_error hfail with ⟨fault, rfl, hscan⟩
    exact ⟨fault, rfl, first_of_scan hscan⟩
  · rcases exists_scan_of_tokenize htokens with ⟨words, rfl, hscan⟩
    have hkinds : (words ++ [Token.endOf text]).map Token.kind =
        words.map Token.kind ++ [.eof] := List.map_append
    refine ⟨⟨words, rfl, exact_of_scan hscan⟩, fun other others hothers => ?_, ?_⟩
    · rcases exists_scan_of_tokenize hothers with ⟨otherWords, rfl, hother⟩
      rw [hkinds, List.dropLast_concat, List.map_append]
      exact exists_tokenize_append hscan hother
    · rw [hkinds]
      exact exists_tokenize_intercalate hscan

example : tokenize "a & $b" = .error ⟨"a & $b", ⟨4, 1⟩, .unexpectedCharacter '$'⟩ :=
  rfl

end SeedLogic
