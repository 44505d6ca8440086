/-!
# Strings in JSON

A string is a list of units between quotation marks: characters, escaped ones
among them, and halves of surrogate pairs.  Reading the units and joining the pairs
are two steps, because a string that is skipped may hold half a pair.
-/

namespace SeedLogic.Json

/-! ## Units -/

/-- The value of a hexadecimal digit. -/
def hexDigit? (char : Char) : Option Nat :=
  if char.isDigit then some (char.toNat - '0'.toNat)
  else if 'a' ≤ char ∧ char ≤ 'f' then some (char.toNat - 'a'.toNat + 10)
  else if 'A' ≤ char ∧ char ≤ 'F' then some (char.toNat - 'A'.toNat + 10)
  else none

/-- The value of four hexadecimal digits. -/
def hexUnit? (first second third fourth : Char) : Option Nat := do
  let first ← hexDigit? first
  let second ← hexDigit? second
  let third ← hexDigit? third
  let fourth ← hexDigit? fourth
  pure (first * 0x1000 + second * 0x100 + third * 0x10 + fourth)

/-- The character of a short escape. -/
def shortEscape? : Char → Option Char
  | '"' => some '"'
  | '\\' => some '\\'
  | '/' => some '/'
  | 'b' => some '\x08'
  | 'f' => some '\x0c'
  | 'n' => some '\n'
  | 'r' => some '\r'
  | 't' => some '\t'
  | _ => none

/-- Put a unit in front of the units read behind it. -/
def consUnit (unit : Nat) : Option (List Nat × List Char) → Option (List Nat × List Char) :=
  Option.map fun outcome => (unit :: outcome.1, outcome.2)

/-- The units of a string, behind its opening quotation mark, and what is left behind
its closing one.  Control characters must be escaped. -/
def stringUnits? : List Char → Option (List Nat × List Char)
  | [] => none
  | '"' :: rest => some ([], rest)
  | '\\' :: 'u' :: first :: second :: third :: fourth :: rest =>
      match hexUnit? first second third fourth with
      | some unit => consUnit unit (stringUnits? rest)
      | none => none
  | '\\' :: escape :: rest =>
      match shortEscape? escape with
      | some char => consUnit char.toNat (stringUnits? rest)
      | none => none
  | char :: rest => if char.toNat < 0x20 then none else consUnit char.toNat (stringUnits? rest)

/-! ## Surrogate pairs -/

/-- A unit that begins a surrogate pair. -/
def isHighSurrogate (unit : Nat) : Bool :=
  0xD800 ≤ unit && unit < 0xDC00

/-- A unit that ends a surrogate pair. -/
def isLowSurrogate (unit : Nat) : Bool :=
  0xDC00 ≤ unit && unit < 0xE000

/-- The character of a surrogate pair. -/
def ofSurrogates (high low : Nat) : Char :=
  Char.ofNat (0x10000 + (high - 0xD800) * 0x400 + (low - 0xDC00))

/-- The characters of units, whose surrogates must come in pairs. -/
def charsOfUnits? : List Nat → Option (List Char)
  | [] => some []
  | high :: low :: units =>
      if isHighSurrogate high then
        if isLowSurrogate low then (charsOfUnits? units).map (ofSurrogates high low :: ·)
        else none
      else if isLowSurrogate high then none
      else (charsOfUnits? (low :: units)).map (Char.ofNat high :: ·)
  | [unit] =>
      if isHighSurrogate unit || isLowSurrogate unit then none else some [Char.ofNat unit]

/-- The text of units. -/
def textOfUnits? (units : List Nat) : Option String :=
  (charsOfUnits? units).map String.ofList

end SeedLogic.Json
