/-!
# Games and their name spaces

A seed combines two games.  Every name of an area, a location, an item or an
event belongs to one of them and carries its tag, or the tag that both share.
-/

namespace SeedLogic

/-- The games of a combined seed. -/
inductive Game where
  | oot
  | mm
  deriving DecidableEq, Repr

namespace Game

/-- The games in their fixed order. -/
def all : List Game :=
  [.oot, .mm]

/-- The name of a game in documents and messages. -/
def name : Game → String
  | .oot => "oot"
  | .mm => "mm"

/-- The tag that names of a game begin with. -/
def tag : Game → String
  | .oot => "OOT"
  | .mm => "MM"

/-- The game with a given name. -/
def ofName? (name : String) : Option Game :=
  all.find? fun game => game.name == name

@[simp]
theorem ofName?_name (game : Game) : ofName? game.name = some game := by
  cases game <;> decide

end Game

/-- The tag of names that belong to both games. -/
def sharedTag : String :=
  "SHARED"

/-- The tags a name may carry. -/
def nameTags : List String :=
  Game.all.map Game.tag ++ [sharedTag]

/-- Does `name` begin with `tag` and the separator? -/
def hasTag (separator : Char) (name tag : String) : Bool :=
  (tag.toList ++ [separator]).isPrefixOf name.toList

/-- A name is namespaced when it begins with a tag and the separator. -/
def isNamespaced (name : String) (separator : Char) : Bool :=
  nameTags.any (hasTag separator name)

/-- The full name of `name` in a game: tagged names stay, others get the game's tag. -/
def Game.namespaced (game : Game) (name : String) (separator : Char) : String :=
  if isNamespaced name separator then name
  else game.tag ++ String.ofList (separator :: name.toList)

/-- A full name is namespaced. -/
theorem isNamespaced_namespaced (game : Game) (name : String) (separator : Char) :
    isNamespaced (game.namespaced name separator) separator = true := by
  unfold Game.namespaced
  split
  case isTrue htagged => exact htagged
  case isFalse =>
    refine List.any_eq_true.mpr ⟨game.tag, ?_, ?_⟩
    · cases game <;> decide
    · simp [hasTag, List.isPrefixOf_iff_prefix]

/-- The separator after the tag of an area, a location or a gossip stone. -/
def placeSeparator : Char :=
  ' '

/-- The separator after the tag of an item, an event or a scene. -/
def symbolSeparator : Char :=
  '_'

/-- The full name of an area, a location or a gossip stone. -/
def Game.placeName (game : Game) (name : String) : String :=
  game.namespaced name placeSeparator

/-- The full name of an item, an event or a scene. -/
def Game.symbolName (game : Game) (name : String) : String :=
  game.namespaced name symbolSeparator

end SeedLogic
