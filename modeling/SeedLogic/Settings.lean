import SeedLogic.Check
import SeedLogic.Dict
import SeedLogic.Game
import SeedLogic.Symbols
import SeedLogic.Text.Occurrence

/-!
# Settings

The settings of a seed: who plays, what counts as its goal, which hints it gets,
and an open set of options that requirements read and that decide where dungeon
items may go.
-/

namespace SeedLogic

/-- The value of an option: a switch or one of several names. -/
inductive SettingValue where
  | flag (value : Bool)
  | name (value : String)
  deriving DecidableEq, Repr

/-- Options by name. -/
abbrev Options :=
  Dict String SettingValue

namespace Options

/-- Is there an option of this name? -/
def knows (options : Options) (name : String) : Bool :=
  (options.find? name).isSome

/-- How a switch is compared to a name. -/
def flagName (value : Bool) : String :=
  if value then "true" else "false"

/-- Is a setting on?  Without a value to compare to, a switch must be on; with one,
the option must have it. -/
def isEnabled (options : Options) (key : SettingKey) : Bool :=
  match options.find? key.name, key.value? with
  | some (.flag value), none => value
  | some (.flag value), some wanted => flagName value == wanted
  | some (.name value), some wanted => value == wanted
  | some (.name _), none => false
  | none, _ => false

end Options

/-- A boss: where it is fought, and the event of its defeat. -/
structure BossSetting where
  name : String
  area : String
  event : String
  deriving DecidableEq, Repr

/-- The settings of a seed. -/
structure Settings where
  players : Nat
  goalEvents : List String
  hintPathBoss : Bool
  hintPathEndBoss : Bool
  bosses : List BossSetting
  endBosses : List BossSetting
  heroHints : Nat
  options : Options

namespace Settings

/-- The settings of a document that says nothing. -/
def default : Settings where
  players := 1
  goalEvents := []
  hintPathBoss := false
  hintPathEndBoss := false
  bosses := []
  endBosses := []
  heroHints := 0
  options := .empty

instance : Inhabited Settings :=
  ⟨default⟩

end Settings

/-! ## Constraints of dungeon items -/

/-- The game whose tag an item carries. -/
def gameOfItem? (item : String) : Option Game :=
  Game.all.find? fun game => hasTag symbolSeparator item game.tag

/-- How option names end for a game. -/
def Game.optionSuffix : Game → String
  | .oot => "Oot"
  | .mm => "Mm"

/-- The options that decide about dungeon items: a mark in the name of an item, and
the option for it. -/
def shuffleOptions (game : Game) : List (String × String) :=
  [("_SMALL_KEY", "smallKeyShuffle" ++ game.optionSuffix),
    ("_BOSS_KEY", "bossKeyShuffle" ++ game.optionSuffix),
    ("_MAP_", "mapCompassShuffle"),
    ("_COMPASS_", "mapCompassShuffle"),
    ("_STRAY_FAIRY", "strayFairyShuffle")]

/-- The option that decides about an item. -/
def shuffleOption? (item : String) : Option String := do
  let game ← gameOfItem? item
  let entry ← (shuffleOptions game).find? fun entry =>
    Text.occursIn entry.1.toList item.toList
  pure entry.2

/-- Where an item may be placed: dungeon items follow their option, and stay in
their dungeon when it names no constraint; other items go anywhere. -/
def itemConstraint (options : Options) (item : String) : Constraint :=
  match shuffleOption? item with
  | none => .anywhere
  | some option =>
      match options.find? option with
      | some (.name value) => (Constraint.ofName? value).getD .ownDungeon
      | _ => .ownDungeon

end SeedLogic
