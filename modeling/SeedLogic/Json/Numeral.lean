import SeedLogic.Json
import SeedLogic.Text.Decimal

/-!
# Numbers in JSON

A number consists of a sign, digits, a fraction and an exponent, of which only the
digits are needed.  It has a value if it is not too large for a floating-point
number.  That is decided by its leading digits, as many as 64 bits hold, and by a
power of ten.
-/

namespace SeedLogic.Json

open Text (decimalValue)

/-- The parts of a number. -/
structure Numeral where
  negative : Bool
  whole : List Char
  fraction? : Option (List Char)
  exponent? : Option Int

namespace Numeral

/-! ## Reading -/

/-- Digits at the front, at least one, and what is left behind them. -/
def digits? (chars : List Char) : Option (List Char × List Char) :=
  match chars.span Char.isDigit with
  | ([], _) => none
  | outcome => some outcome

/-- Digits without a needless zero in front. -/
def whole? (chars : List Char) : Option (List Char × List Char) :=
  (digits? chars).filter fun outcome =>
    outcome.1.length == 1 || outcome.1.head? != some '0'

/-- A fraction, if a point begins one. -/
def readFraction? : List Char → Option (Option (List Char) × List Char)
  | '.' :: chars => (digits? chars).map fun outcome => (some outcome.1, outcome.2)
  | chars => some (none, chars)

/-- An exponent behind its mark. -/
def signedExponent? : List Char → Option (Int × List Char)
  | '-' :: chars =>
      (digits? chars).map fun outcome => (-(decimalValue outcome.1 : Int), outcome.2)
  | '+' :: chars => (digits? chars).map fun outcome => ((decimalValue outcome.1 : Int), outcome.2)
  | chars => (digits? chars).map fun outcome => ((decimalValue outcome.1 : Int), outcome.2)

/-- An exponent, if a mark begins one. -/
def readExponent? : List Char → Option (Option Int × List Char)
  | 'e' :: chars => (signedExponent? chars).map fun outcome => (some outcome.1, outcome.2)
  | 'E' :: chars => (signedExponent? chars).map fun outcome => (some outcome.1, outcome.2)
  | chars => some (none, chars)

/-- A number behind its sign. -/
def readUnsigned? (negative : Bool) (chars : List Char) : Option (Numeral × List Char) := do
  let (whole, chars) ← whole? chars
  let (fraction?, chars) ← readFraction? chars
  let (exponent?, chars) ← readExponent? chars
  pure (⟨negative, whole, fraction?, exponent?⟩, chars)

/-- The number at the front, and what is left behind it. -/
def read? : List Char → Option (Numeral × List Char)
  | '-' :: chars => readUnsigned? true chars
  | chars => readUnsigned? false chars

/-! ## Range -/

/-- Leading digits, and the power of ten they are to be multiplied with. -/
structure Leading where
  value : Nat
  power : Int

/-- Leading digits have 64 bits. -/
def Leading.fits (leading : Leading) (digit : Char) : Bool :=
  leading.value * 10 + decimalValue [digit] < Nat.pow 2 64

/-- Take digits before the point.  From the first that does not fit, they only count. -/
def Leading.takeWhole (leading : Leading) : List Char → Leading
  | [] => leading
  | digit :: digits =>
      if leading.fits digit then
        Leading.takeWhole { leading with value := leading.value * 10 + decimalValue [digit] }
          digits
      else { leading with power := leading.power + (digits.length + 1 : Nat) }

/-- Take digits behind the point, up to the first that does not fit. -/
def Leading.takeFraction (leading : Leading) : List Char → Leading
  | [] => leading
  | digit :: digits =>
      if leading.fits digit then
        Leading.takeFraction ⟨leading.value * 10 + decimalValue [digit], leading.power - 1⟩ digits
      else leading

/-- The leading digits of a number. -/
def leading (number : Numeral) : Leading :=
  let leading := (Leading.takeWhole ⟨0, 0⟩ number.whole).takeFraction
    (number.fraction?.getD [])
  { leading with power := leading.power + number.exponent?.getD 0 }

/-- Is the number too large?  Leading digits alone never are, and no power of ten beyond
the 308th is a floating-point number. -/
def isTooLarge (number : Numeral) : Bool :=
  let leading := number.leading
  if leading.value = 0 || leading.power ≤ 0 then false
  else if leading.power > 308 then true
  else
    let power := Float.ofScientific 1 false leading.power.toNat
    (Float.ofScientific leading.value false 0 * power).isInf

/-- Is the number natural, without fraction and exponent? -/
def isNatural (number : Numeral) : Bool :=
  !number.negative && number.fraction?.isNone && number.exponent?.isNone

/-- The value of a number that is written as `literal`. -/
def toJson (number : Numeral) (literal : List Char) : Json :=
  if number.isTooLarge then .flawed .null .meaningless
  else if number.isNatural then .natural (decimalValue number.whole)
  else .numeral (String.ofList literal)

end Numeral

end SeedLogic.Json
