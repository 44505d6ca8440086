import Mathlib.Data.List.TakeDrop
import SeedLogic.Proofs.Json.Layout
import SeedLogic.Proofs.Text.Decimal

/-!
# Reading what is spelled

The reader finds the value of every text that spells one, if arrays and objects do not nest
too deep in it (`ofText?_of_spells`).  So it reads back what either layout writes.
-/

namespace SeedLogic.Json

open Text (decimalValue)

/-! ## White space -/

theorem skipSpace_gap {gap : List Char} (hgap : IsGap gap) (chars : List Char) :
    skipSpace (gap ++ chars) = skipSpace chars :=
  List.dropWhile_append_of_pos hgap

theorem skipSpace_cons {char : Char} (hchar : isSpace char = false) (chars : List Char) :
    skipSpace (char :: chars) = char :: chars :=
  List.dropWhile_cons_of_neg (by simp [hchar])

theorem skipSpace_gap_cons {gap : List Char} (hgap : IsGap gap) (char : Char)
    (hchar : isSpace char = false) (chars : List Char) :
    skipSpace (gap ++ char :: chars) = char :: chars := by
  rw [skipSpace_gap hgap, skipSpace_cons hchar]

/-! ## Numbers -/

/-- Nothing that a number could go on with. -/
def EndsNumber (chars : List Char) : Prop :=
  ∀ char ∈ chars.head?, char.isDigit = false ∧ char ≠ '.' ∧ char ≠ 'e' ∧ char ≠ 'E'

namespace Numeral

/-- Digits that make up a word are all taken. -/
theorem takeWhole_decimalValue (power : Int) : ∀ front digits : List Char,
    decimalValue (front ++ digits) < Nat.pow 2 64 →
      Leading.takeWhole ⟨decimalValue front, power⟩ digits =
        ⟨decimalValue (front ++ digits), power⟩
  | front, [], _ => by rw [Leading.takeWhole, List.append_nil]
  | front, digit :: digits, hlt => by
      have hnext : decimalValue front * 10 + decimalValue [digit] =
          decimalValue (front ++ [digit]) := by
        simp [decimalValue]
      rw [List.append_cons] at hlt ⊢
      have hfits : Leading.fits ⟨decimalValue front, power⟩ digit = true := by
        rw [Leading.fits, hnext, decide_eq_true_eq]
        exact Nat.lt_of_le_of_lt (Text.decimalValue_le_append _ digits) hlt
      rw [Leading.takeWhole, if_pos hfits, hnext]
      exact takeWhole_decimalValue power _ digits hlt

/-- Digits that make up a word are its text. -/
theorem toJson_digits (digits literal : List Char) (hlt : decimalValue digits < Nat.pow 2 64) :
    toJson ⟨false, digits, none, none⟩ literal = .natural (decimalValue digits) := by
  have hwhole : Leading.takeWhole ⟨0, 0⟩ digits = ⟨decimalValue digits, 0⟩ :=
    takeWhole_decimalValue 0 [] digits hlt
  have htooLarge : isTooLarge ⟨false, digits, none, none⟩ = false := by
    simp [isTooLarge, leading, hwhole, Leading.takeFraction]
  simp [toJson, htooLarge, isNatural]

theorem digits?_append {digits rest : List Char} (hdigits : ∀ char ∈ digits, char.isDigit = true)
    (hne : digits ≠ []) (hends : EndsNumber rest) :
    digits? (digits ++ rest) = some (digits, rest) := by
  have hspan : (digits ++ rest).span Char.isDigit = (digits, rest) := by
    rw [List.span_eq_takeWhile_dropWhile, List.takeWhile_append_of_pos hdigits,
      List.dropWhile_append_of_pos hdigits]
    cases rest with
    | nil => simp
    | cons char rest =>
        have hchar := (hends char rfl).1
        simp [hchar]
  rw [digits?, hspan]
  cases digits with
  | nil => exact absurd rfl hne
  | cons digit digits => rfl

/-- The digits of a number are read where nothing continues them. -/
theorem read?_toString (value : Nat) {rest : List Char} (hends : EndsNumber rest) :
    read? ((toString value).toList ++ rest) =
      some (⟨false, (toString value).toList, none, none⟩, rest) := by
  have hisDigit : ∀ char ∈ (toString value).toList, char.isDigit = true :=
    fun _ => Text.isDigit_of_mem_toString
  have hdigits := digits?_append hisDigit (Text.toList_toString_ne_nil value) hends
  have hwhole :
      whole? ((toString value).toList ++ rest) = some ((toString value).toList, rest) := by
    rw [whole?, hdigits]
    refine if_pos ?_
    rcases Nat.eq_zero_or_pos value with rfl | hpos
    · rfl
    · simp only [bne_iff_ne.mpr (Text.head?_toString_ne_zero hpos), Bool.or_true]
  have hfraction : readFraction? rest = some (none, rest) := by
    unfold readFraction?
    split
    · exact absurd rfl (hends _ rfl).2.1
    · rfl
  have hexponent : readExponent? rest = some (none, rest) := by
    unfold readExponent?
    split
    · exact absurd rfl (hends _ rfl).2.2.1
    · exact absurd rfl (hends _ rfl).2.2.2
    · rfl
  have hunsigned : readUnsigned? false ((toString value).toList ++ rest) =
      some (⟨false, (toString value).toList, none, none⟩, rest) := by
    simp only [readUnsigned?, hwhole, hfraction, hexponent, Option.bind_eq_bind,
      Option.bind_some, Option.pure_def]
  unfold read?
  split
  case h_1 chars hminus =>
      rcases Text.exists_toString_eq_cons value with ⟨digit, digits, heq, hdigit⟩
      rw [heq] at hminus
      cases hminus
      exact absurd hdigit (by decide)
  case h_2 => exact hunsigned

end Numeral

theorem readNumber_toString {value : Nat} (hlt : value < Nat.pow 2 64) {rest : List Char}
    (hends : EndsNumber rest) :
    readNumber ((toString value).toList ++ rest) = (.natural value, rest) := by
  have hvalue := Text.decimalValue_toString value
  rw [readNumber, Numeral.read?_toString value hends]
  simp only [Numeral.toJson_digits _ _ (hvalue ▸ hlt), hvalue]

/-! ## Strings -/

theorem hexUnit?_hexDigit : ∀ unit < 0x20,
    hexUnit? '0' '0' (hexDigit (unit / 0x10)) (hexDigit (unit % 0x10)) = some unit := by
  decide

/-- What stands for a character is read as its unit. -/
theorem stringUnits?_escape (char : Char) (rest : List Char) :
    stringUnits? (escape char ++ rest) = consUnit char.toNat (stringUnits? rest) := by
  unfold escape
  split_ifs with hquote hbackslash hb hf hn hr ht hcontrol
  iterate 7
    · subst_vars
      rfl
  · simp only [List.cons_append, List.nil_append, stringUnits?, hexUnit?_hexDigit _ hcontrol]
  · rw [List.singleton_append, stringUnits?, if_neg hcontrol]
    · exact hquote
    · exact fun _ _ _ _ _ hunit _ => hbackslash hunit
    · exact fun _ _ hshort _ => hbackslash hshort

theorem stringUnits?_escaped (rest : List Char) : ∀ chars : List Char,
    stringUnits? (chars.flatMap escape ++ '"' :: rest) = some (chars.map Char.toNat, rest)
  | [] => by simp [stringUnits?]
  | char :: chars => by
      rw [List.flatMap_cons, List.append_assoc, stringUnits?_escape,
        stringUnits?_escaped rest chars]
      rfl

/-- No character is half of a surrogate pair. -/
theorem isSurrogate_toNat (char : Char) :
    isHighSurrogate char.toNat = false ∧ isLowSurrogate char.toNat = false := by
  have hvalid : char.toNat < 0xD800 ∨ 0xDFFF < char.toNat ∧ char.toNat < 0x110000 := char.valid
  constructor
  · rw [isHighSurrogate, Bool.and_eq_false_iff, decide_eq_false_iff_not, decide_eq_false_iff_not]
    omega
  · rw [isLowSurrogate, Bool.and_eq_false_iff, decide_eq_false_iff_not, decide_eq_false_iff_not]
    omega

theorem charsOfUnits?_map_toNat : ∀ chars : List Char,
    charsOfUnits? (chars.map Char.toNat) = some chars
  | [] => rfl
  | [char] => by
      rcases isSurrogate_toNat char with ⟨hhigh, hlow⟩
      simp [charsOfUnits?, hhigh, hlow]
  | first :: second :: chars => by
      rcases isSurrogate_toNat first with ⟨hhigh, hlow⟩
      have hothers := charsOfUnits?_map_toNat (second :: chars)
      rw [List.map_cons] at hothers
      simp [charsOfUnits?, hhigh, hlow, hothers]

/-- A text is read behind its opening quotation mark. -/
theorem readString_escaped (text : String) (rest : List Char) :
    readString (text.toList.flatMap escape ++ '"' :: rest) = (.string text, rest) := by
  simp only [readString, stringUnits?_escaped, textOfUnits?, charsOfUnits?_map_toNat,
    Option.map_some, String.ofList_toList]

theorem toList_quote (text : String) :
    (quote text).toList = '"' :: (text.toList.flatMap escape ++ ['"']) := by
  rw [quote, String.toList_ofList]
  rfl

theorem readKey?_quote {gap : List Char} (hgap : IsGap gap) (key : String) (rest : List Char) :
    readKey? (gap ++ ((quote key).toList ++ rest)) = some (some key, rest) := by
  rw [readKey?, skipSpace_gap hgap, toList_quote, List.cons_append, skipSpace_cons rfl,
    List.append_assoc, List.singleton_append]
  simp only [stringUnits?_escaped, textOfUnits?, charsOfUnits?_map_toNat, Option.map_some,
    String.ofList_toList]

/-! ## Beginnings -/

theorem isSpace_of_isDigit {char : Char} (hdigit : char.isDigit = true) :
    isSpace char = false := by
  simp only [isSpace, Bool.or_eq_false_iff, beq_eq_false_iff_ne]
  refine ⟨⟨⟨?_, ?_⟩, ?_⟩, ?_⟩
  all_goals
    rintro rfl
    exact absurd hdigit (by decide)

/-- A value that begins with a digit is a number. -/
theorem valueFrom_of_isDigit (value : List Char → Reading) (fuel : Nat) {first : Char}
    (hdigit : first.isDigit = true) (rest : List Char) :
    valueFrom value fuel first rest = readNumber (first :: rest) := by
  unfold valueFrom
  split
  case h_7 => rfl
  all_goals exact absurd hdigit (by decide)

/-- The text of a value begins with no white space, and with no closing bracket. -/
theorem Spells.exists_cons {depth : Nat} {json : Json} {chars : List Char}
    (hspells : Spells depth json chars) : ∃ first others, chars = first :: others ∧
      isSpace first = false ∧ first ≠ ']' := by
  cases hspells with
  | natural _ =>
      rcases Text.exists_toString_eq_cons _ with ⟨digit, digits, heq, hdigit⟩
      refine ⟨digit, digits, heq, isSpace_of_isDigit hdigit, ?_⟩
      rintro rfl
      exact absurd hdigit (by decide)
  | string text => exact ⟨'"', _, toList_quote text, rfl, by decide⟩
  | _ => exact ⟨_, _, rfl, rfl, by decide⟩

theorem Spells.isBroken_eq {depth : Nat} {json : Json} {chars : List Char}
    (hspells : Spells depth json chars) : json.isBroken = false := by
  cases hspells <;> rfl

theorem SpellsElements.exists_cons {depth : Nat} {elements : List Json} {chars : List Char}
    (hspells : SpellsElements depth elements chars) (rest : List Char) :
    ∃ first others, skipSpace (chars ++ rest) = first :: others ∧ first ≠ ']' := by
  cases hspells with
  | single hbefore helement _ =>
      rcases helement.exists_cons with ⟨first, others, rfl, hfirst, hne⟩
      rw [List.append_assoc, skipSpace_gap hbefore]
      exact ⟨first, _, skipSpace_cons hfirst _, hne⟩
  | cons hbefore helement _ _ =>
      rcases helement.exists_cons with ⟨first, others, rfl, hfirst, hne⟩
      rw [List.append_assoc, skipSpace_gap hbefore]
      exact ⟨first, _, skipSpace_cons hfirst _, hne⟩

theorem SpellsMembers.exists_quote {depth : Nat} {members : List (String × Json)}
    {chars : List Char} (hspells : SpellsMembers depth members chars) (rest : List Char) :
    ∃ others, skipSpace (chars ++ rest) = '"' :: others := by
  cases hspells with
  | single hfront _ _ _ _ =>
      rw [List.append_assoc, skipSpace_gap hfront, toList_quote]
      exact ⟨_, skipSpace_cons rfl _⟩
  | cons hfront _ _ _ _ _ =>
      rw [List.append_assoc, skipSpace_gap hfront, toList_quote]
      exact ⟨_, skipSpace_cons rfl _⟩

/-- No number goes on with a separator, nor with white space in front of it. -/
theorem endsNumber_gap {gap : List Char} (hgap : IsGap gap) (char : Char)
    (hchar : char = ',' ∨ char = ']' ∨ char = '}') (rest : List Char) :
    EndsNumber (gap ++ char :: rest) := by
  cases gap with
  | nil =>
      intro first hfirst
      cases hfirst
      rcases hchar with rfl | rfl | rfl
      all_goals decide
  | cons space gap =>
      have hspace := hgap space List.mem_cons_self
      intro first hfirst
      cases hfirst
      refine ⟨Bool.eq_false_iff.mpr fun hdigit => ?_, ?_, ?_, ?_⟩
      · rw [isSpace_of_isDigit hdigit] at hspace
        cases hspace
      all_goals
        rintro rfl
        exact absurd hspace (by decide)

/-! ## Arrays and objects -/

section Bodies

variable {value : List Char → Reading} {fuel depth : Nat} {gap chars others rest : List Char}
  {element : Json}

theorem valueFrom_array {first : Char} {elements : List Json}
    (hskip : skipSpace chars = first :: others) (hfirst : first ≠ ']')
    (hbody : arrayBody value fuel chars = (elements, .closed rest)) :
    valueFrom value fuel '[' chars = (.array elements, rest) := by
  simp only [valueFrom, hskip, hbody]
  split
  case h_1 hclosed => cases hclosed; exact absurd rfl hfirst
  case h_2 => rfl

/-- The first element of an array, and then what the character behind it says. -/
theorem arrayBody_succ (hgap : IsGap gap) (helement : Spells depth element chars)
    (hvalue : value (chars ++ rest) = (element, rest)) :
    arrayBody value (fuel + 1) (gap ++ (chars ++ rest)) =
      match skipSpace rest with
      | ',' :: rest => (element :: (arrayBody value fuel rest).1, (arrayBody value fuel rest).2)
      | ']' :: rest => ([element], .closed rest)
      | _ => ([element], .broken .broken) := by
  rcases helement.exists_cons with ⟨first, others, rfl, hspace, hfirst⟩
  rw [arrayBody, List.cons_append, skipSpace_gap_cons hgap first hspace]
  split
  case h_1 hempty => cases hempty
  case h_2 hclosed => cases hclosed; exact absurd rfl hfirst
  case h_3 heq =>
      cases heq
      simp only [← List.cons_append, hvalue, helement.isBroken_eq]
      rfl

theorem keyedMembers_map : ∀ members : List (String × Json),
    keyedMembers (members.map fun member => (some member.1, member.2)) = members
  | [] => rfl
  | _ :: members => by rw [List.map_cons, keyedMembers, keyedMembers_map members]

theorem valueFrom_object {members : List (String × Json)}
    (hskip : skipSpace chars = '"' :: others)
    (hbody : objectBody value fuel chars =
      (members.map fun member => (some member.1, member.2), .closed rest)) :
    valueFrom value fuel '{' chars = (.object members, rest) := by
  have hkeyed : (members.map fun member => (some member.1, member.2)).all
      (fun member => member.1.isSome) = true := by
    simp
  simp only [valueFrom, hskip, hbody, objectOf, keyedMembers_map, hkeyed]
  rfl

/-- The first member of an object, and then what the character behind it says. -/
theorem objectBody_succ {key : String} (hkey : readKey? gap = some (some key, chars))
    (hchars : skipSpace chars = ':' :: others) (hvalue : value others = (element, rest))
    (hbroken : element.isBroken = false) :
    objectBody value (fuel + 1) gap =
      match skipSpace rest with
      | ',' :: rest =>
          ((some key, element) :: (objectBody value fuel rest).1, (objectBody value fuel rest).2)
      | '}' :: rest => ([(some key, element)], .closed rest)
      | _ => ([(some key, element)], .broken .brokenKey) := by
  rw [objectBody, hkey]
  simp only [hchars, hvalue, hbroken]
  rfl

end Bodies

/-! ## Values -/

theorem limited_of_lt {level : Nat} (json : Json) (hlt : level < maxNesting) :
    limited level json = json := by
  rw [limited, decide_eq_false (Nat.not_le.mpr hlt), Bool.and_false]
  rfl

theorem value_succ {fuel level : Nat} {gap : List Char} (hgap : IsGap gap) {first : Char}
    (hfirst : isSpace first = false) (chars : List Char) :
    value (fuel + 1) level (gap ++ first :: chars) =
      (limited level (valueFrom (value fuel (level + 1)) fuel first chars).1,
        (valueFrom (value fuel (level + 1)) fuel first chars).2) := by
  rw [value, skipSpace_gap hgap, skipSpace_cons hfirst]

mutual

/-- What spells a value is read as this value, where nothing continues it. -/
theorem value_of_spells : ∀ {depth : Nat} {json : Json} {chars gap : List Char},
    Spells depth json chars → IsGap gap → ∀ (fuel level : Nat) (rest : List Char),
      chars.length < fuel → level + depth ≤ maxNesting → EndsNumber rest →
        value fuel level (gap ++ (chars ++ rest)) = (json, rest)
  | _, _, _, _, .null, hgap, fuel + 1, level, rest, _, _, _ => value_succ hgap rfl _
  | _, _, _, _, .yes, hgap, fuel + 1, level, rest, _, _, _ => value_succ hgap rfl _
  | _, _, _, _, .no, hgap, fuel + 1, level, rest, _, _, _ => value_succ hgap rfl _
  | _, _, _, _, .natural hword, hgap, fuel + 1, level, rest, _, _, hends => by
      rcases Text.exists_toString_eq_cons _ with ⟨digit, digits, heq, hdigit⟩
      have hnumber := readNumber_toString hword hends
      rw [heq, List.cons_append] at hnumber ⊢
      rw [value_succ hgap (isSpace_of_isDigit hdigit), valueFrom_of_isDigit _ _ hdigit, hnumber]
      rfl
  | _, _, _, _, .string text, hgap, fuel + 1, level, rest, _, _, _ => by
      have hstring := readString_escaped text rest
      rw [toList_quote, List.cons_append, List.append_assoc, List.singleton_append,
        value_succ hgap rfl]
      simp only [valueFrom, hstring]
      rfl
  | _, _, _, _, .emptyArray hinner, hgap, fuel + 1, level, rest, _, hle, _ => by
      rw [List.cons_append, List.append_assoc, List.singleton_append, value_succ hgap rfl]
      simp only [valueFrom, skipSpace_gap_cons hinner ']' rfl]
      rw [limited_of_lt _ (by omega)]
  | _, _, _, _, .array helements, hgap, fuel + 1, level, rest, hlt, hle, _ => by
      rw [List.length_cons, List.length_append, List.length_singleton] at hlt
      rcases helements.exists_cons (']' :: rest) with ⟨first, others, hskip, hfirst⟩
      have hbody := arrayBody_of_spells helements fuel (level + 1) fuel rest (by omega) (by omega)
        (by omega)
      rw [List.cons_append, List.append_assoc, List.singleton_append, value_succ hgap rfl,
        valueFrom_array hskip hfirst hbody, limited_of_lt _ (by omega)]
  | _, _, _, _, .emptyObject hinner, hgap, fuel + 1, level, rest, _, hle, _ => by
      rw [List.cons_append, List.append_assoc, List.singleton_append, value_succ hgap rfl]
      simp only [valueFrom, skipSpace_gap_cons hinner '}' rfl]
      rw [limited_of_lt _ (by omega)]
  | _, _, _, _, .object hmembers, hgap, fuel + 1, level, rest, hlt, hle, _ => by
      rw [List.length_cons, List.length_append, List.length_singleton] at hlt
      rcases hmembers.exists_quote ('}' :: rest) with ⟨others, hskip⟩
      have hbody := objectBody_of_spells hmembers fuel (level + 1) fuel rest (by omega) (by omega)
        (by omega)
      rw [List.cons_append, List.append_assoc, List.singleton_append, value_succ hgap rfl,
        valueFrom_object hskip hbody, limited_of_lt _ (by omega)]

theorem arrayBody_of_spells : ∀ {depth : Nat} {elements : List Json} {chars : List Char},
    SpellsElements depth elements chars → ∀ (fuel level count : Nat) (rest : List Char),
      chars.length < fuel → chars.length < count → level + depth ≤ maxNesting →
        arrayBody (value fuel level) count (chars ++ ']' :: rest) = (elements, .closed rest)
  | _, _, _, .single hbefore helement hbehind, fuel, level, count + 1, rest, hlt, _, hle => by
      simp only [List.length_append] at hlt
      have hvalue := value_of_spells helement isGap_nil fuel level _ (by omega) hle
        (endsNumber_gap hbehind ']' (.inr (.inl rfl)) rest)
      simp only [List.append_assoc]
      rw [arrayBody_succ hbefore helement hvalue, skipSpace_gap_cons hbehind ']' rfl]
      rfl
  | _, _, _, .cons hbefore helement hbehind helements, fuel, level, count + 1, rest, hlt, hcount,
      hle => by
      simp only [List.length_append, List.length_cons] at hlt hcount
      have hvalue := fun rest => value_of_spells helement isGap_nil fuel level _ (by omega) hle
        (endsNumber_gap hbehind ',' (.inl rfl) rest)
      have hothers := arrayBody_of_spells helements fuel level count rest (by omega) (by omega) hle
      simp only [List.append_assoc, List.cons_append]
      rw [arrayBody_succ hbefore helement (hvalue _), skipSpace_gap_cons hbehind ',' rfl]
      simp only [hothers]

theorem objectBody_of_spells : ∀ {depth : Nat} {members : List (String × Json)}
    {chars : List Char}, SpellsMembers depth members chars →
      ∀ (fuel level count : Nat) (rest : List Char), chars.length < fuel → chars.length < count →
        level + depth ≤ maxNesting →
          objectBody (value fuel level) count (chars ++ '}' :: rest) =
            (members.map fun member => (some member.1, member.2), .closed rest)
  | _, _, _, .single hfront hgap hbefore hvalue hbehind, fuel, level, count + 1, rest, hlt, _,
      hle => by
      simp only [List.length_append, List.length_cons] at hlt
      have hread := value_of_spells hvalue hbefore fuel level _ (by omega) hle
        (endsNumber_gap hbehind '}' (.inr (.inr rfl)) rest)
      simp only [List.append_assoc, List.cons_append]
      rw [objectBody_succ (readKey?_quote hfront _ _) (skipSpace_gap_cons hgap ':' rfl _) hread
        hvalue.isBroken_eq, skipSpace_gap_cons hbehind '}' rfl]
      rfl
  | _, _, _, .cons hfront hgap hbefore hvalue hbehind hmembers, fuel, level, count + 1, rest,
      hlt, hcount, hle => by
      simp only [List.length_append, List.length_cons] at hlt hcount
      have hread := fun rest => value_of_spells hvalue hbefore fuel level _ (by omega) hle
        (endsNumber_gap hbehind ',' (.inl rfl) rest)
      have hothers := objectBody_of_spells hmembers fuel level count rest (by omega) (by omega) hle
      simp only [List.append_assoc, List.cons_append]
      rw [objectBody_succ (readKey?_quote hfront _ _) (skipSpace_gap_cons hgap ':' rfl _)
        (hread _) hvalue.isBroken_eq, skipSpace_gap_cons hbehind ',' rfl]
      simp only [hothers]
      rfl

end

/-! ## Documents -/

theorem firstOfText_of_spells {depth : Nat} {json : Json} {text : String}
    (hspells : Spells depth json text.toList) (hle : depth ≤ maxNesting) :
    firstOfText text = (json, []) := by
  have hread := value_of_spells hspells isGap_nil (text.length + 1) 0 []
    (by rw [String.length_toList]; exact Nat.lt_succ_self _) (by omega) nofun
  rwa [List.nil_append, List.append_nil] at hread

/-- A text that spells a value is read as this value. -/
theorem ofText?_of_spells {depth : Nat} {json : Json} {text : String}
    (hspells : Spells depth json text.toList) (hle : depth ≤ maxNesting) :
    ofText? text = some json := by
  rw [ofText?, firstOfText_of_spells hspells hle]
  simp [hspells.isBroken_eq, skipSpace]

end SeedLogic.Json
