import SeedLogic.Json.Decoder
import SeedLogic.Settings

/-!
# Settings as documents

Seven members of a settings document have a meaning of their own.  All others are
options, and stand beside them in the same object.
-/

namespace SeedLogic

open Json (Decoder Place)

namespace SettingValue

def toJson : SettingValue → Json
  | .flag value => .bool value
  | .name value => .string value

def ofJson : Decoder SettingValue
  | .bool value => .ok (.flag value)
  | .string value => .ok (.name value)
  | _ => Decoder.refuse

@[simp]
theorem ofJson_toJson (value : SettingValue) : ofJson value.toJson = .ok value := by
  cases value <;> rfl

end SettingValue

namespace BossSetting

def toJson (boss : BossSetting) : Json :=
  .object [("name", .string boss.name), ("area", .string boss.area),
    ("event", .string boss.event)]

def shape : Decoder.Shape where
  fields := ["name", "area", "event"]
  required := ["name", "area", "event"]
  least := 3

def assign (boss : BossSetting) (field : String) (json : Json) : Except Place BossSetting :=
  match field with
  | "name" => return { boss with name := ← Decoder.string json }
  | "area" => return { boss with area := ← Decoder.string json }
  | _ => return { boss with event := ← Decoder.string json }

def ofJson : Decoder BossSetting :=
  Decoder.record shape ⟨"", "", ""⟩ assign

@[simp]
theorem ofJson_toJson (boss : BossSetting) : ofJson boss.toJson = .ok boss := by
  rfl

end BossSetting

namespace Settings

/-- The members with a meaning of their own. -/
def fields : List String :=
  ["players", "goalEvents", "hintPathBoss", "hintPathEndBoss", "bosses", "endBosses",
    "heroHints"]

/-- The document of settings. -/
def toJson (settings : Settings) : Json :=
  .object <|
    [("players", .natural settings.players),
      ("goalEvents", .array (settings.goalEvents.map .string)),
      ("hintPathBoss", .bool settings.hintPathBoss),
      ("hintPathEndBoss", .bool settings.hintPathEndBoss),
      ("bosses", .array (settings.bosses.map BossSetting.toJson)),
      ("endBosses", .array (settings.endBosses.map BossSetting.toJson)),
      ("heroHints", .natural settings.heroHints)] ++
      settings.options.entries.map fun entry => (entry.1, entry.2.toJson)

def assign (settings : Settings) (field : String) (json : Json) : Except Place Settings :=
  match field with
  | "players" => return { settings with players := ← Decoder.word64 json }
  | "goalEvents" => return { settings with goalEvents := ← Decoder.list Decoder.string json }
  | "hintPathBoss" => return { settings with hintPathBoss := ← Decoder.bool json }
  | "hintPathEndBoss" => return { settings with hintPathEndBoss := ← Decoder.bool json }
  | "bosses" => return { settings with bosses := ← Decoder.list BossSetting.ofJson json }
  | "endBosses" => return { settings with endBosses := ← Decoder.list BossSetting.ofJson json }
  | _ => return { settings with heroHints := ← Decoder.word64 json }

/-- An option of a document.  Its faults are faults of the whole document. -/
def option (member : String × Json) : Except Place (String × SettingValue) :=
  match SettingValue.ofJson member.2 with
  | .ok value => .ok (member.1, value)
  | .error _ => Decoder.refuse

/-- The settings of a document. -/
def ofJson : Decoder Settings := fun json =>
  match json.begun with
  | .object members => do
      let (settings, _) ← Decoder.assignMembers fields assign Decoder.flawless [] default members
      Decoder.complete json ()
      let options ← (members.filter fun member => !fields.contains member.1).mapM option
      .ok { settings with options := .ofList options }
  | _ => Decoder.refuse

/-- The settings of a text, of which only the first JSON value counts. -/
def ofText (text : String) : Except Place Settings :=
  ofJson (Json.firstOfText text).1

end Settings

end SeedLogic
