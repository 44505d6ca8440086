/-!
# Decimal numbers
-/

namespace SeedLogic.Text

/-- The number that decimal digits denote. -/
def decimalValue (digits : List Char) : Nat :=
  digits.foldl (fun value digit => value * 10 + (digit.toNat - '0'.toNat)) 0

@[simp]
theorem decimalValue_nil : decimalValue [] = 0 :=
  rfl

/-- A digit more on the right makes the number ten times as large, plus the digit. -/
@[simp]
theorem decimalValue_append_singleton (digits : List Char) (digit : Char) :
    decimalValue (digits ++ [digit]) =
      decimalValue digits * 10 + (digit.toNat - '0'.toNat) := by
  simp [decimalValue]

end SeedLogic.Text
