import SeedLogic.Game
import SeedLogic.Location
import SeedLogic.Recorded

/-!
# Log records

What the program reports about its work, by kind of report.
-/

namespace SeedLogic

/-- How important a report is. -/
inductive LogLevel where
  | debug
  | info
  deriving DecidableEq, Repr

/-- The name of a level. -/
def LogLevel.name : LogLevel → String
  | .debug => "DEBUG"
  | .info => "INFO"

/-- A report about the work done. -/
inductive LogRecord where
  | tableLoaded (game : Game) (areas checks : Nat)
  | worldBuilt (areas checks items events : Nat)
  | runFinished (iterations spheres : Nat) (goal : Bool)
  | playthroughFound (spheres : Nat)
  | requiredFound (locations : Nat)
  | pathsFound (count : Nat)
  | bossUnknown (event : String) (world : WorldId)
  | hintGiven (location : Location) (gossip : GossipId)
  | placementRead (items : Nat)
  | analysisDone (spheres required unreachable : Nat)
  | hintsPlaced (world : WorldId) (placed seed : Nat)
  deriving DecidableEq, Repr

namespace LogRecord

/-- How important a report is. -/
def level : LogRecord → LogLevel
  | .tableLoaded .. | .runFinished .. | .bossUnknown .. | .hintGiven .. => .debug
  | .worldBuilt .. | .playthroughFound .. | .requiredFound .. | .pathsFound .. => .info
  | .placementRead .. | .analysisDone .. | .hintsPlaced .. => .info

/-- The wording of a report. -/
def text : LogRecord → String
  | .tableLoaded game areas checks =>
      "Loaded " ++ game.name ++ " tables: " ++ toString areas ++ " areas, " ++
        toString checks ++ " checks"
  | .worldBuilt areas checks items events =>
      "Built world: " ++ toString areas ++ " areas, " ++ toString checks ++ " checks, " ++
        toString items ++ " items, " ++ toString events ++ " events"
  | .runFinished iterations spheres goal =>
      "Pathfinder finished after " ++ toString iterations ++ " iterations: " ++
        toString spheres ++ " spheres, goal=" ++ if goal then "true" else "false"
  | .playthroughFound spheres => "Playthrough: " ++ toString spheres ++ " spheres"
  | .requiredFound locations => "Required locations: " ++ toString locations
  | .pathsFound count => "Paths: " ++ toString count
  | .bossUnknown event world =>
      "Boss event " ++ event ++ " not found in world " ++ toString world
  | .hintGiven location gossip =>
      "Hero hint for " ++ location.describe ++ " at gossip " ++ toString gossip
  | .placementRead items => "Placement: " ++ toString items ++ " items"
  | .analysisDone spheres required unreachable =>
      "Spheres: " ++ toString spheres ++ ", required: " ++ toString required ++
        ", unreachable: " ++ toString unreachable
  | .hintsPlaced world placed seed =>
      "World " ++ toString world ++ ": placed " ++ toString placed ++
        " hero hints (seed=" ++ toString seed ++ ")"

end LogRecord

/-- A computation that reports about its work. -/
abbrev Logged (ε α : Type) :=
  Recorded LogRecord ε α

end SeedLogic
