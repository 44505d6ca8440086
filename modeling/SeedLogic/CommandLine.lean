import SeedLogic.CommandLine.Arguments
import SeedLogic.Json.Printer
import SeedLogic.Settings.Codec
import SeedLogic.SpoilerLog.Codec
import SeedLogic.Table.Codec
import SeedLogic.World.Build

/-!
# The command line

One run of the program: it reads settings, tables and perhaps a placement, analyzes
the seed, gives hints and writes a spoiler log.  A run is a function of the texts
of the files, so that everything but the reading and the printing is here.
-/

namespace SeedLogic

/-- What a file of the command line holds. -/
inductive FileRole where
  | settings
  | table
  | placement
  deriving DecidableEq, Repr

/-- How messages call the contents of a file. -/
def FileRole.describe : FileRole → String
  | .settings => "settings"
  | .table => "game table"
  | .placement => "placement"

/-- How messages call the reading of a file. -/
def FileRole.reading : FileRole → String
  | .settings | .table => "load"
  | .placement => "read"

/-- Why a run ends early. -/
inductive CommandError where
  | unreadable (role : FileRole) (path : String)
  | malformed (role : FileRole) (path : String)
  | unbuildable (error : LogicError)
  | failed (failure : Failure)
  deriving DecidableEq, Repr

namespace CommandError

/-- A text with every line but the first indented. -/
def indentLines (text : String) : String :=
  String.ofList <| text.toList.flatMap fun char =>
    if char = '\n' then ['\n', ' ', ' ', ' ', ' '] else [char]

/-- The report of an error. -/
def message : CommandError → String
  | .unreadable role path =>
      "Unable to " ++ role.reading ++ " " ++ role.describe ++ " at " ++ path
  | .malformed role path => "Unable to parse " ++ role.describe ++ " at " ++ path
  | .unbuildable error =>
      "Unable to build world\n\nCaused by:\n    " ++ indentLines error.message
  | .failed failure => failure.message

end CommandError

/-- The texts of files by path. -/
abbrev FileTexts :=
  String → Option String

namespace CommandLine

/-! ## Reading -/

/-- The contents of a file, by a reader that may refuse its text. -/
def readFile {ε α : Type} (texts : FileTexts) (role : FileRole) (read : String → Except ε α)
    (path : String) : Except CommandError α :=
  match texts path with
  | none => .error (.unreadable role path)
  | some text => (read text).mapError fun _ => .malformed role path

/-- The slots and items of a placement text. -/
def placementOfText (text : String) : Except Json.Place (Dict String String) :=
  Json.Decoder.ofText (Json.Decoder.dict Json.Decoder.string) text

/-- The placement of a run.  A placement file is for every player. -/
def readPlacement (texts : FileTexts) (path? : Option String) (worlds : List World) :
    Except CommandError Placement :=
  match path? with
  | none => .ok (.vanilla worlds)
  | some path => do
      let names ← readFile texts .placement placementOfText path
      (Placement.ofNames worlds (worlds.map fun _ => names)).mapError fun error =>
        .failed (.logic error)

/-! ## A run -/

/-- Report the hints of a world. -/
def announceHints (seed : Nat) (world : WorldId) (placed : Nat) : Logged Interrupted Unit :=
  .note (.hintsPlaced world placed seed)

/-- Give hero hints in all worlds, if they are asked for. -/
def placeHints (pathfinder : Pathfinder) (placement : Placement) (required : LocationSet)
    (count seed : Nat) : Logged CommandError HintBoard :=
  let players := pathfinder.players.length
  if count = 0 then pure (.empty players)
  else do
    let (_, state) ←
      (Hint.placeInWorlds pathfinder placement required.toList count (announceHints seed)
        (List.range players) ⟨.empty players, .ofSeed seed⟩).mapFault fun fault =>
          .failed (.logic fault.error)
    pure state.board

/-- A run with given arguments.  `seed` is for choices when the arguments have none. -/
def run (texts : FileTexts) (arguments : Arguments) (seed : Nat) :
    Logged CommandError SpoilerLog := do
  let settings ← .lift <|
    readFile texts .settings Settings.ofText (arguments.settings?.getD "")
  let tables ← .lift <| arguments.tables.mapM (readFile texts .table GameTable.ofText)
  let world ← (World.build tables settings.options (itemConstraint settings.options)).mapFault
    .unbuildable
  let worlds := List.replicate settings.players world
  let placement ← .lift (readPlacement texts arguments.placement? worlds)
  .note (.placementRead placement.size)
  let goal ← .lift ((settingsGoal worlds settings).mapError .failed)
  let pathfinder ← .lift <|
    (Pathfinder.ofWorlds worlds settings.options (.none settings.players)).mapError
      fun error => .failed (.logic error)
  let pathfinder := pathfinder.withGoal goal
  let analysis ← (Analysis.run pathfinder placement settings).mapFault .failed
  .note (.analysisDone analysis.spheres.length analysis.required.size analysis.unreachable.size)
  let board ← placeHints pathfinder placement analysis.required settings.heroHints
    (arguments.seed?.getD seed)
  pure (.ofAnalysis worlds placement analysis (some board))

/-! ## Reporting -/

/-- What a run leaves behind: its exit code, what it prints, the records of its work,
and the text of a file to be written at a path. -/
structure Report where
  exitCode : Nat
  output : String
  complaint : String
  log : List LogRecord
  file? : Option (String × String)

/-- The report of a run. -/
def reportOf (arguments : Arguments) (outcome : Logged CommandError SpoilerLog) : Report :=
  let log := outcome.trace.filter fun record => record.level == .info
  match outcome.result, arguments.spoilerLog? with
  | .error error, _ => ⟨1, "", "Error: " ++ error.message, log, none⟩
  | .ok _, none => ⟨0, "", "", log, none⟩
  | .ok spoiler, some path =>
      ⟨0, "Writing spoiler log to " ++ path ++ "\n", "", log, some (path, spoiler.toJson.pretty)⟩

/-- Run the program, and report. -/
def execute (texts : FileTexts) (arguments : Arguments) (seed : Nat) : Report :=
  reportOf arguments (run texts arguments seed)

end CommandLine

end SeedLogic
