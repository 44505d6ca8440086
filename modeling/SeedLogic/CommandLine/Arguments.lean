/-!
# Arguments of the command line

Each argument is a flag with its values: one or more tables behind `--world`, and
one value behind each of the others.  Tables and settings must be given.
-/

namespace SeedLogic

/-- What the program is asked to do. -/
structure Arguments where
  tables : List String
  settings? : Option String
  placement? : Option String
  seed? : Option Nat
  spoilerLog? : Option String
  deriving DecidableEq, Repr

namespace Arguments

/-- The flags of the command line. -/
inductive Flag where
  | world
  | settings
  | placement
  | randomSeed
  | outputSpoilerLog
  deriving DecidableEq, Repr

/-- The flag that a word is. -/
def Flag.ofWord? : String → Option Flag
  | "--world" => some .world
  | "--settings" => some .settings
  | "--placement" => some .placement
  | "--random-seed" => some .randomSeed
  | "--output-spoiler-log" => some .outputSpoilerLog
  | _ => none

/-- No argument. -/
def none : Arguments :=
  ⟨[], .none, .none, .none, .none⟩

/-- The arguments with a value of a flag. -/
def assign (arguments : Arguments) (value : String) : Flag → Option Arguments
  | .world => some { arguments with tables := arguments.tables ++ [value] }
  | .settings => some { arguments with settings? := some value }
  | .placement => some { arguments with placement? := some value }
  | .randomSeed => value.toNat?.map fun seed => { arguments with seed? := some seed }
  | .outputSpoilerLog => some { arguments with spoilerLog? := some value }

/-- Read words.  `flag?` is the flag that takes the next value. -/
def readWords : Arguments → (flag? : Option Flag) → List String → Option Arguments
  | arguments, _, [] => some arguments
  | arguments, flag?, word :: words =>
      match Flag.ofWord? word, flag? with
      | some flag, _ => readWords arguments (some flag) words
      | .none, some flag =>
          (arguments.assign word flag).bind fun arguments =>
            readWords arguments (if flag = .world then flag? else .none) words
      | .none, .none => .none

/-- The arguments of a command line that is complete. -/
def ofWords? (words : List String) : Option Arguments :=
  (readWords none .none words).filter fun arguments =>
    !arguments.tables.isEmpty && arguments.settings?.isSome

end Arguments

end SeedLogic
