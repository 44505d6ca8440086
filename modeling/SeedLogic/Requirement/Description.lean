import SeedLogic.Requirement

/-!
# Descriptions of requirements

The text of a requirement, with names in place of numbers.  A number without a
name is described by the empty text.
-/

namespace SeedLogic

/-- The text of a setting. -/
def SettingKey.describe (key : SettingKey) : String :=
  match key.value? with
  | some value => "setting(" ++ key.name ++ ", " ++ value ++ ")"
  | none => "setting(" ++ key.name ++ ")"

namespace Symbols

/-- The name of an item. -/
def itemName (symbols : Symbols) (item : Nat) : String :=
  symbols.items.keys[item]?.getD ""

/-- The name of an event. -/
def eventName (symbols : Symbols) (event : Nat) : String :=
  symbols.events.keys[event]?.getD ""

/-- The text of a setting. -/
def settingText (symbols : Symbols) (setting : Nat) : String :=
  (symbols.settings.keys[setting]?.map SettingKey.describe).getD ""

end Symbols

namespace Requirement

mutual

/-- The text of a requirement. -/
def describe (symbols : Symbols) : Requirement → String
  | .const value => if value then "true" else "false"
  | .hasItem item count =>
      if count = 1 then symbols.itemName item
      else "has(" ++ symbols.itemName item ++ ", " ++ toString count ++ ")"
  | .hasEvent event => "event(" ++ symbols.eventName event ++ ")"
  | .not operand => "!" ++ describe symbols operand
  | .and operands => "(" ++ describeAll symbols " & " operands ++ ")"
  | .or operands => "(" ++ describeAll symbols " | " operands ++ ")"
  | .atLeast count operands =>
      "at_least(" ++ toString count ++ ", " ++ describeAll symbols ", " operands ++ ")"
  | .setting id => symbols.settingText id

/-- The texts of several requirements, with a separator between them. -/
def describeAll (symbols : Symbols) (separator : String) : List Requirement → String
  | [] => ""
  | [operand] => describe symbols operand
  | operand :: next :: operands =>
      describe symbols operand ++ separator ++
        describeAll symbols separator (next :: operands)

end

theorem describe_const (symbols : Symbols) (value : Bool) :
    (const value).describe symbols = if value then "true" else "false" := by
  rw [describe]

theorem describeAll_singleton (symbols : Symbols) (separator : String) (operand : Requirement) :
    describeAll symbols separator [operand] = operand.describe symbols := by
  rw [describeAll]

end Requirement

end SeedLogic
