import SeedLogic.Random.KeyStream

/-!
# Random choices

A source hands out 32-bit words, and choices are made from them: a number below a
bound by taking the upper half of a product and rejecting words that would favour
some numbers, a shuffle by exchanges from the end, and a choice by one number.
-/

namespace SeedLogic

/-- A source of words: `length` words, and zeros for ever after.  `drawn` words
have been handed out. -/
structure RandomSource where
  length : Nat
  word : Nat → UInt32
  drawn : Nat

namespace RandomSource

/-- The source of listed words. -/
def ofWords (words : List UInt32) : RandomSource :=
  ⟨words.length, fun index => words[index]?.getD 0, 0⟩

/-- The key stream of a seed: sixteen words in each of 2^64 blocks. -/
def ofSeed (seed : Nat) : RandomSource :=
  ⟨16 * Nat.pow 2 64, Random.keyWord (Random.keyOfSeed seed), 0⟩

/-- The next word. -/
def peek (source : RandomSource) : Nat :=
  if source.drawn < source.length then (source.word source.drawn).toNat else 0

/-- The source without its next word. -/
def advance (source : RandomSource) : RandomSource :=
  { source with drawn := source.drawn + 1 }

/-- The greatest lower half of a product that is accepted for a bound: the bound,
shifted until its top bit is set, less one. -/
def zone (bound : Nat) : Nat :=
  bound * Nat.pow 2 (31 - Nat.log2 bound) - 1

/-- A number below a bound, from the first of at most `fuel` words whose product
with the bound has an accepted lower half. -/
def belowWithin (bound : Nat) : (fuel : Nat) → RandomSource → Nat × RandomSource
  | 0, source => (0, source)
  | fuel + 1, source =>
      let product := source.peek * bound
      if product % Nat.pow 2 32 ≤ zone bound then (product / Nat.pow 2 32, source.advance)
      else belowWithin bound fuel source.advance

/-- A number below a bound.  The zeros behind the words of a source are always
accepted. -/
def below (source : RandomSource) (bound : Nat) : Nat × RandomSource :=
  belowWithin bound (source.length - source.drawn + 1) source

/-- Exchange two elements. -/
def exchange {α : Type} (elements : List α) (first second : Nat) : List α :=
  match elements[first]?, elements[second]? with
  | some left, some right => (elements.set first right).set second left
  | _, _ => elements

/-- Exchange each of the first `count` elements, from the last down to the second,
with one that does not stand behind it. -/
def shuffleFrom {α : Type} : (count : Nat) → List α → RandomSource → List α × RandomSource
  | 0, elements, source => (elements, source)
  | 1, elements, source => (elements, source)
  | count + 2, elements, source =>
      let (place, source) := source.below (count + 2)
      shuffleFrom (count + 1) (exchange elements (count + 1) place) source

/-- Shuffle a list. -/
def shuffle {α : Type} (source : RandomSource) (elements : List α) : List α × RandomSource :=
  shuffleFrom elements.length elements source

/-- Choose an element.  Nothing is drawn for an empty list. -/
def choose {α : Type} (source : RandomSource) (elements : List α) :
    Option α × RandomSource :=
  if elements.isEmpty then (none, source)
  else
    let (place, source) := source.below elements.length
    (elements[place]?, source)

end RandomSource

end SeedLogic
