import SeedLogic.Text.Decimal

/-!
# Numbers written out

A number that is written in decimal is made of digits, and they denote it.
-/

namespace SeedLogic.Text

theorem isDigit_of_mem_toString {number : Nat} {char : Char}
    (hmem : char ∈ (toString number).toList) : char.isDigit = true := by
  rw [Nat.toString_eq_ofList_toDigits, String.toList_ofList] at hmem
  exact Nat.isDigit_of_mem_toDigits (by decide) (by decide) hmem

theorem toList_toString_ne_nil (number : Nat) : (toString number).toList ≠ [] := by
  rw [Nat.toString_eq_ofList_toDigits, String.toList_ofList]
  exact Nat.toDigits_ne_nil

theorem exists_toString_eq_cons (number : Nat) : ∃ digit digits,
    (toString number).toList = digit :: digits ∧ digit.isDigit = true := by
  cases heq : (toString number).toList with
  | nil => exact absurd heq (toList_toString_ne_nil number)
  | cons digit digits =>
      have hmem : digit ∈ (toString number).toList := heq ▸ List.mem_cons_self
      exact ⟨digit, digits, rfl, isDigit_of_mem_toString hmem⟩

/-- Only zero begins with a zero. -/
theorem head?_toString_ne_zero {number : Nat} (hpos : 0 < number) :
    (toString number).toList.head? ≠ some '0' := by
  have hsingle : ∀ digit < 10, 0 < digit → [Nat.digitChar digit].head? ≠ some '0' := by decide
  rw [Nat.toString_eq_ofList_toDigits, String.toList_ofList]
  induction number using Nat.strongRecOn with
  | ind number ih =>
      rw [Nat.toDigits_eq_if (by decide)]
      split
      case isTrue hlt => exact hsingle number hlt hpos
      case isFalse hge =>
          have hfront := ih (number / 10) (Nat.div_lt_self hpos (by decide))
            (Nat.div_pos (Nat.le_of_not_lt hge) (by decide))
          cases hdigits : Nat.toDigits 10 (number / 10) with
          | nil => exact absurd hdigits Nat.toDigits_ne_nil
          | cons digit digits => rwa [hdigits] at hfront

/-- The digits of a number denote it. -/
@[simp]
theorem decimalValue_toString (number : Nat) : decimalValue (toString number).toList = number := by
  calc decimalValue (toString number).toList
      = Nat.ofDigitChars 10 (Nat.toDigits 10 number) 0 := by
        rw [Nat.toString_eq_ofList_toDigits, String.toList_ofList, Nat.ofDigitChars_eq_foldl]
        simp only [decimalValue, Nat.mul_comm]
    _ = number := Nat.ofDigitChars_ten_toDigits

/-- More digits do not make a number smaller. -/
theorem decimalValue_le_append (front : List Char) : ∀ digits : List Char,
    decimalValue front ≤ decimalValue (front ++ digits)
  | [] => by simp
  | digit :: digits => by
      have hle := decimalValue_le_append (front ++ [digit]) digits
      rw [decimalValue_append_singleton, ← List.append_cons] at hle
      omega

/-- Different numbers are written differently. -/
theorem toString_injective {left right : Nat} (heq : toString left = toString right) :
    left = right := by
  rw [← decimalValue_toString left, heq, decimalValue_toString]

end SeedLogic.Text
