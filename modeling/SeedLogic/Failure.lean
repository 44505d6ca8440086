import SeedLogic.Error

/-!
# Failures of the program

A run of the whole program fails for an error of the logic, or because the seed
itself does not do.
-/

namespace SeedLogic

/-- Why a run of the program fails. -/
inductive Failure where
  | logic (error : LogicError)
  | noGoalEvents
  | unknownGoalEvent (event : String) (world : WorldId)
  | notBeatable
  deriving DecidableEq, Repr

/-- The wording of a failure. -/
def Failure.message : Failure → String
  | .logic error => error.message
  | .noGoalEvents => "No goal events configured"
  | .unknownGoalEvent event world =>
      "Unknown goal event " ++ event ++ " in world " ++ toString world
  | .notBeatable => "Seed is not beatable"

end SeedLogic
