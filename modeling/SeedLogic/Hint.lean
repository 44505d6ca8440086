import SeedLogic.LocationSet
import SeedLogic.Pathfinder
import SeedLogic.Random

/-!
# Hints

Hint stones are given hints.  A hero hint points out a required location; it goes
to a stone of the same world that can be reached without what lies there.
-/

namespace SeedLogic

/-- What a hint stone tells. -/
inductive Hint where
  | hero (location : Location)
  | itemExact (locations : List Location)
  | foolish (region : String)
  deriving DecidableEq, Repr

/-- The hints given so far, by world and stone, and the locations hinted at. -/
structure HintBoard where
  hinted : LocationSet
  stones : List (Dict GossipId Hint)

namespace HintBoard

/-- No hints, for a number of players. -/
def empty (players : Nat) : HintBoard :=
  ⟨.empty, List.replicate players Dict.empty⟩

/-- Has the stone a hint? -/
def isAssigned (board : HintBoard) (world : WorldId) (gossip : GossipId) : Bool :=
  (board.stones[world]?.map fun stones => stones.contains gossip).getD false

/-- Give a stone a hint.  The world joins the list if need be. -/
def assign (board : HintBoard) (world : WorldId) (gossip : GossipId) (hint : Hint) :
    HintBoard :=
  let missing := world + 1 - board.stones.length
  { board with
    stones := (board.stones ++ List.replicate missing Dict.empty).modify world fun stones =>
      stones.insert gossip hint }

/-- Remember that a location is hinted at. -/
def markHinted (board : HintBoard) (location : Location) : HintBoard :=
  { board with hinted := board.hinted.insert location }

end HintBoard

/-- Stones of the overworld and of grottos.  Those of the moon are chosen apart. -/
def GossipStone.isRegular (stone : GossipStone) : Bool :=
  stone.kind == .stone || stone.kind == .grotto

/-- The hints given so far, and the source of further choices. -/
structure HintState where
  board : HintBoard
  source : RandomSource

/-- An error, and what was done before it. -/
structure Interrupted where
  error : LogicError
  state : HintState

namespace Hint

/-- A search for stones, without some locations. -/
def searchOptions (placement : Placement) (hidden : List Location) : SearchOptions :=
  { SearchOptions.plain with
    items? := some placement
    recursive := true
    forbidden := hidden
    gossips := true }

/-- The stones of a world that are reached, accepted and without a hint, ascending. -/
def candidates (board : HintBoard) (world : World) (id : WorldId)
    (accepts : GossipStone → Bool) (state : SearchState) : List GossipId :=
  match state.worlds[id]? with
  | none => []
  | some reached =>
      reached.gossips.toList.filter fun gossip =>
        (world.gossips[gossip]?.map accepts).getD false && !board.isAssigned id gossip

/-- Choose a stone of a world that can be reached without the hidden locations, that
is accepted and that has no hint. -/
def findStone (pathfinder : Pathfinder) (placement : Placement) (id : WorldId)
    (hidden : List Location) (accepts : GossipStone → Bool) (state : HintState) :
    Logged Interrupted (Option GossipId × HintState) := do
  let reached ←
    (pathfinder.runLogged none (searchOptions placement hidden)).mapFault fun error =>
      ⟨error, state⟩
  match pathfinder.world? id with
  | none => .fail ⟨.invalidOptions (.unknownWorld id), state⟩
  | some world =>
      let (choice, source) :=
        state.source.choose (candidates state.board world id accepts reached)
      pure (choice, { state with source })

/-- Give hero hints for locations in turn, until `count` are placed or none is left.
`placed` counts those before. -/
def placeInTurn (pathfinder : Pathfinder) (placement : Placement) (id : WorldId)
    (count : Nat) : (placed : Nat) → List Location → HintState →
    Logged Interrupted (Nat × HintState)
  | placed, [], state => pure (placed, state)
  | placed, location :: rest, state =>
      if placed < count then do
        let (stone, state) ←
          findStone pathfinder placement id [location] GossipStone.isRegular state
        match stone with
        | none => placeInTurn pathfinder placement id count placed rest state
        | some gossip => do
            .note (.hintGiven location gossip)
            let board := (state.board.markHinted location).assign id gossip (.hero location)
            placeInTurn pathfinder placement id count (placed + 1) rest { state with board }
      else pure (placed, state)

/-- Place up to `count` hero hints for the required locations of a world that are not
hinted at, in a shuffled order.  The answer is how many are placed. -/
def placeHeroHints (pathfinder : Pathfinder) (placement : Placement)
    (required : List Location) (id : WorldId) (count : Nat) (state : HintState) :
    Logged Interrupted (Nat × HintState) :=
  let unhinted := required.filter fun location =>
    location.world == id && !state.board.hinted.has location
  let (shuffled, source) := state.source.shuffle unhinted
  placeInTurn pathfinder placement id count 0 shuffled.reverse { state with source }

/-- Place up to `count` hero hints in each of several worlds in turn.  The answer is how
many are placed in each; `announce` reports it. -/
def placeInWorlds (pathfinder : Pathfinder) (placement : Placement)
    (required : List Location) (count : Nat)
    (announce : WorldId → Nat → Logged Interrupted Unit) :
    List WorldId → HintState → Logged Interrupted (List Nat × HintState)
  | [], state => pure ([], state)
  | id :: ids, state => do
      let (placed, state) ← placeHeroHints pathfinder placement required id count state
      announce id placed
      let (others, state) ← placeInWorlds pathfinder placement required count announce ids state
      pure (placed :: others, state)

end Hint

end SeedLogic
