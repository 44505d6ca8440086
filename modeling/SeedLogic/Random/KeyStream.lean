/-!
# A key stream

The stream of 32-bit words that the ChaCha cipher with twelve rounds makes from a
key: block `n` mixes a fixed head, the key, the block number and a zero nonce, and
adds the mixed words to the unmixed ones.
-/

namespace SeedLogic.Random

/-- Rotate a word to the left by less than 32 bits. -/
def rotateLeft (word count : UInt32) : UInt32 :=
  (word <<< count) ||| (word >>> (32 - count))

/-- The sixteen words that are mixed. -/
abbrev Block :=
  Array UInt32

namespace Block

/-- The word at a place. -/
def word (block : Block) (place : Nat) : UInt32 :=
  block[place]?.getD 0

/-- Add the word at `source` to that at `target`, mix the sum into the word at
`mixed`, and rotate that one. -/
def mix (block : Block) (target source mixed : Nat) (count : UInt32) : Block :=
  let sum := word block target + word block source
  let block := block.setIfInBounds target sum
  block.setIfInBounds mixed (rotateLeft (word block mixed ^^^ sum) count)

/-- A quarter round on four places. -/
def quarterRound (block : Block) (places : Nat × Nat × Nat × Nat) : Block :=
  let (a, b, c, d) := places
  let block := mix block a b d 16
  let block := mix block c d b 12
  let block := mix block a b d 8
  mix block c d b 7

/-- The places of the quarter rounds of a double round: columns, then diagonals. -/
def doubleRoundPlaces : List (Nat × Nat × Nat × Nat) :=
  [(0, 4, 8, 12), (1, 5, 9, 13), (2, 6, 10, 14), (3, 7, 11, 15),
    (0, 5, 10, 15), (1, 6, 11, 12), (2, 7, 8, 13), (3, 4, 9, 14)]

/-- A round on the columns and one on the diagonals. -/
def doubleRound (block : Block) : Block :=
  doubleRoundPlaces.foldl quarterRound block

/-- Several double rounds. -/
def doubleRounds : Nat → Block → Block
  | 0, block => block
  | count + 1, block => doubleRounds count (doubleRound block)

end Block

/-- The four words in front of every block. -/
def blockHead : List UInt32 :=
  [0x61707865, 0x3320646e, 0x79622d32, 0x6b206574]

/-- The unmixed block of a key of eight words and a block number. -/
def plainBlock (key : List UInt32) (number : Nat) : Block :=
  (blockHead ++ key ++
    [UInt32.ofNat number, UInt32.ofNat (number / Nat.pow 2 32), 0, 0]).toArray

/-- A block of the key stream: six double rounds, added to the unmixed block. -/
def keyBlock (key : List UInt32) (number : Nat) : Block :=
  let plain := plainBlock key number
  Array.zipWith (· + ·) (Block.doubleRounds 6 plain) plain

/-- A word of the key stream. -/
def keyWord (key : List UInt32) (index : Nat) : UInt32 :=
  Block.word (keyBlock key (index / 16)) (index % 16)

/-- The key whose first 64 bits are a seed, low word first, and whose others are zero. -/
def keyOfSeed (seed : Nat) : List UInt32 :=
  [UInt32.ofNat seed, UInt32.ofNat (seed / Nat.pow 2 32), 0, 0, 0, 0, 0, 0]

end SeedLogic.Random
