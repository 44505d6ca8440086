import SeedLogic.Proofs.Dictionary
import SeedLogic.Proofs.Json.Decoding
import SeedLogic.Settings.Codec

/-!
# Settings and their documents

The object of a settings document is split: seven members have a meaning of their own, with a
default where they are missing, and all others are options (`Settings.ofJson_eq_ok_iff`).
What was read is found in the document that is written of it
(`Settings.ofText_splits`).
-/

namespace SeedLogic

open Json (Decoder Proper Spells maxNesting)
open Json.Decoder (Given)

/-! ## Options -/

theorem SettingValue.ofJson_eq_ok {json : Json} {value : SettingValue} :
    ofJson json = .ok value ↔ json = value.toJson := by
  constructor
  · intro hjson
    cases json <;> cases hjson <;> rfl
  · rintro rfl
    exact value.ofJson_toJson

theorem SettingValue.toJson_injective : Function.Injective toJson := by
  intro first second heq
  rw [← SettingValue.ofJson_eq_ok, SettingValue.ofJson_toJson] at heq
  exact Except.ok.inj heq

namespace Settings

/-- The member of an option. -/
def memberOf (entry : String × SettingValue) : String × Json :=
  (entry.1, entry.2.toJson)

theorem option_eq_ok {member : String × Json} {entry : String × SettingValue} :
    option member = .ok entry ↔ member = memberOf entry := by
  rcases member with ⟨key, json⟩
  rcases entry with ⟨name, value⟩
  rw [memberOf, Prod.mk.injEq, ← SettingValue.ofJson_eq_ok, option]
  cases SettingValue.ofJson json with
  | ok found => simp
  | error place => exact ⟨nofun, nofun⟩

/-- Members are read as options when they are the members of these. -/
theorem mapM_option_eq_ok {members : List (String × Json)}
    {entries : List (String × SettingValue)} :
    members.mapM option = .ok entries ↔ members = entries.map memberOf := by
  rw [Outcome.mapM_eq_ok, ← List.forall₂_eq_eq_eq, List.forall₂_map_right_iff]
  simp only [option_eq_ok]

/-- The value of a name among members that are no fields. -/
theorem lookup_filter (name : String) : ∀ members : List (String × Json),
    (members.filter fun member => !fields.contains member.1).lookup name =
      if name ∈ fields then none else members.lookup name
  | [] => by simp
  | (key, value) :: members => by
      have ih := lookup_filter name members
      by_cases hfield : key ∈ fields
      · rw [List.filter_cons_of_neg (by simpa using hfield), ih, List.lookup_cons]
        by_cases heq : name = key
        · subst heq
          simp [hfield]
        · rw [beq_eq_false_iff_ne.mpr heq]
      · rw [List.filter_cons_of_pos (by simpa using hfield), List.lookup_cons, List.lookup_cons, ih]
        by_cases heq : name = key
        · subst heq
          simp [hfield]
        · rw [beq_eq_false_iff_ne.mpr heq]

theorem lookup_map_memberOf (name : String) : ∀ entries : List (String × SettingValue),
    (entries.map memberOf).lookup name = (entries.lookup name).map SettingValue.toJson
  | [] => rfl
  | (key, value) :: entries => by
      rw [List.map_cons, memberOf, List.lookup_cons, List.lookup_cons, lookup_map_memberOf]
      dsimp only
      cases name == key <;> rfl

/-! ## Splitting -/

/-- The members of a document say what settings are: each of seven fields is given once or has
its default, and an option has the last value of its name. -/
structure Splits (members : List (String × Json)) (settings : Settings) : Prop where
  players : Given members "players" Decoder.word64 1 settings.players
  goalEvents : Given members "goalEvents" (Decoder.list Decoder.string) [] settings.goalEvents
  hintPathBoss : Given members "hintPathBoss" Decoder.bool false settings.hintPathBoss
  hintPathEndBoss : Given members "hintPathEndBoss" Decoder.bool false settings.hintPathEndBoss
  bosses : Given members "bosses" (Decoder.list BossSetting.ofJson) [] settings.bosses
  endBosses : Given members "endBosses" (Decoder.list BossSetting.ofJson) [] settings.endBosses
  heroHints : Given members "heroHints" Decoder.word64 0 settings.heroHints
  values : ∀ member ∈ members, member.1 ∉ fields →
    ∃ value : SettingValue, member.2 = value.toJson
  options : ∀ name, (settings.options.find? name).map SettingValue.toJson =
    if name ∈ fields then none else members.reverse.lookup name

/-- What a field becomes that gets a value, and that all others stay. -/
structure Assigned (before : Settings) (field : String) (json : Json) (after : Settings) :
    Prop where
  players : if field = "players" then Decoder.word64 json = .ok after.players
    else after.players = before.players
  goalEvents : if field = "goalEvents"
    then Decoder.list Decoder.string json = .ok after.goalEvents
    else after.goalEvents = before.goalEvents
  hintPathBoss : if field = "hintPathBoss" then Decoder.bool json = .ok after.hintPathBoss
    else after.hintPathBoss = before.hintPathBoss
  hintPathEndBoss : if field = "hintPathEndBoss"
    then Decoder.bool json = .ok after.hintPathEndBoss
    else after.hintPathEndBoss = before.hintPathEndBoss
  bosses : if field = "bosses" then Decoder.list BossSetting.ofJson json = .ok after.bosses
    else after.bosses = before.bosses
  endBosses : if field = "endBosses"
    then Decoder.list BossSetting.ofJson json = .ok after.endBosses
    else after.endBosses = before.endBosses
  heroHints : if field = "heroHints" then Decoder.word64 json = .ok after.heroHints
    else after.heroHints = before.heroHints

theorem forall_mem_fields {holds : String → Prop} : (∀ field ∈ fields, holds field) ↔
    holds "players" ∧ holds "goalEvents" ∧ holds "hintPathBoss" ∧ holds "hintPathEndBoss" ∧
      holds "bosses" ∧ holds "endBosses" ∧ holds "heroHints" := by
  simp [fields]

theorem assigned_of_assign {before after : Settings} {field : String} {json : Json}
    (hfield : field ∈ fields) (hassign : assign before field json = .ok after) :
    Assigned before field json after := by
  revert field
  rw [forall_mem_fields]
  refine ⟨?_, ?_, ?_, ?_, ?_, ?_, ?_⟩
  all_goals
    intro hassign
    rcases Outcome.bind_eq_ok.mp hassign with ⟨value, hvalue, hafter⟩
    cases hafter
    constructor <;> simp [hvalue]

/-- Settings are read from an object whose fields are assigned and whose other members are
options. -/
theorem ofJson_eq_ok {json : Json} {settings : Settings} :
    ofJson json = .ok settings ↔ ∃ members result entries, json = .object members ∧
      Decoder.assignMembers fields assign Decoder.flawless [] default members = .ok result ∧
      members.filter (fun member => !fields.contains member.1) = entries.map memberOf ∧
      { result.1 with options := .ofList entries } = settings := by
  constructor
  · intro hread
    rw [ofJson] at hread
    split at hread
    case h_1 members hbegun =>
      rcases Outcome.bind_eq_ok.mp hread with ⟨result, hassigned, hread⟩
      rcases Outcome.check_bind_eq_ok.mp hread with ⟨hcomplete, hread⟩
      rcases Outcome.bind_eq_ok.mp hread with ⟨entries, hentries, hread⟩
      have hjson : json.begun = json := by
        cases json with
        | flawed begun flaw => cases (Decoder.complete_eq_ok.mp hcomplete).1
        | _ => rfl
      exact ⟨members, result, entries, hjson.symm.trans hbegun, hassigned,
        mapM_option_eq_ok.mp hentries, Except.ok.inj hread⟩
    case h_2 => cases hread
  · rintro ⟨members, result, entries, rfl, hassigned, hentries, rfl⟩
    change (Decoder.assignMembers fields assign Decoder.flawless [] default members >>= _) = _
    rw [hassigned]
    change ((members.filter fun member => !fields.contains member.1).mapM option >>= _) = _
    rw [mapM_option_eq_ok.mpr hentries]
    rfl

/-- A value that can be decoded can be assigned. -/
theorem exists_assign_of_splits {members : List (String × Json)} {settings : Settings}
    (hsplits : Splits members settings) : ∀ field ∈ fields, ∀ json, (field, json) ∈ members →
      ∀ before, ∃ after, assign before field json = .ok after := by
  rw [forall_mem_fields]
  refine ⟨?_, ?_, ?_, ?_, ?_, ?_, ?_⟩
  all_goals intro json hmem before
  · exact ⟨_, Outcome.bind_eq_ok.mpr ⟨_, hsplits.players.decodes hmem, rfl⟩⟩
  · exact ⟨_, Outcome.bind_eq_ok.mpr ⟨_, hsplits.goalEvents.decodes hmem, rfl⟩⟩
  · exact ⟨_, Outcome.bind_eq_ok.mpr ⟨_, hsplits.hintPathBoss.decodes hmem, rfl⟩⟩
  · exact ⟨_, Outcome.bind_eq_ok.mpr ⟨_, hsplits.hintPathEndBoss.decodes hmem, rfl⟩⟩
  · exact ⟨_, Outcome.bind_eq_ok.mpr ⟨_, hsplits.bosses.decodes hmem, rfl⟩⟩
  · exact ⟨_, Outcome.bind_eq_ok.mpr ⟨_, hsplits.endBosses.decodes hmem, rfl⟩⟩
  · exact ⟨_, Outcome.bind_eq_ok.mpr ⟨_, hsplits.heroHints.decodes hmem, rfl⟩⟩

/-- Members say what settings are in one way only. -/
theorem Splits.unique {members : List (String × Json)} {first second : Settings}
    (hfirst : Splits members first) (hsecond : Splits members second) : first = second := by
  have hoptions : first.options = second.options := by
    refine Dict.ext_find? fun name value => ?_
    have hsame := (hfirst.options name).trans (hsecond.options name).symm
    rw [Option.map_injective SettingValue.toJson_injective hsame]
  rcases first with ⟨players, goalEvents, hintPathBoss, hintPathEndBoss, bosses, endBosses,
    heroHints, options⟩
  rcases second with ⟨players', goalEvents', hintPathBoss', hintPathEndBoss', bosses', endBosses',
    heroHints', options'⟩
  rw [Settings.mk.injEq]
  exact ⟨hfirst.players.unique hsecond.players, hfirst.goalEvents.unique hsecond.goalEvents,
    hfirst.hintPathBoss.unique hsecond.hintPathBoss,
    hfirst.hintPathEndBoss.unique hsecond.hintPathEndBoss, hfirst.bosses.unique hsecond.bosses,
    hfirst.endBosses.unique hsecond.endBosses, hfirst.heroHints.unique hsecond.heroHints,
    hoptions⟩

section Others

variable {members : List (String × Json)} {entries : List (String × SettingValue)}
  (hentries : members.filter (fun member => !fields.contains member.1) = entries.map memberOf)
include hentries

theorem exists_value_of_filter : ∀ member ∈ members, member.1 ∉ fields →
    ∃ value : SettingValue, member.2 = value.toJson := by
  intro member hmem hfield
  have hother : member ∈ members.filter fun member => !fields.contains member.1 :=
    List.mem_filter.mpr ⟨hmem, by simpa using hfield⟩
  rw [hentries] at hother
  rcases List.mem_map.mp hother with ⟨entry, -, rfl⟩
  exact ⟨entry.2, rfl⟩

theorem find?_of_filter (name : String) :
    ((Dict.ofList entries).find? name).map SettingValue.toJson =
      if name ∈ fields then none else members.reverse.lookup name := by
  rw [Dict.find?_ofList, ← lookup_map_memberOf, List.map_reverse, ← hentries,
    ← List.filter_reverse, lookup_filter]

end Others

section Assigning

variable {members : List (String × Json)} {result : Settings × List String}
  (hassigned : Decoder.assignMembers fields assign Decoder.flawless [] default members =
    .ok result)
include hassigned

theorem given_of_assignMembers {α : Type} (key : String) (decoder : Decoder α)
    (get : Settings → α) (hkey : key ∈ fields)
    (hget : ∀ {before field json after}, Assigned before field json after →
      if field = key then decoder json = .ok (get after) else get after = get before) :
    Given members key decoder (get default) (get result.1) :=
  (Decoder.given_or_kept key decoder get
    (fun hfield hassign => hget (assigned_of_assign hfield hassign)) hkey hassigned).2 nofun

/-- What is assigned and what is left split the members. -/
theorem splits_of_assignMembers {entries : List (String × SettingValue)}
    (hentries : members.filter (fun member => !fields.contains member.1) =
      entries.map memberOf) : Splits members { result.1 with options := .ofList entries } where
  players := given_of_assignMembers hassigned "players" Decoder.word64 Settings.players
    (by decide) Assigned.players
  goalEvents := given_of_assignMembers hassigned "goalEvents" (Decoder.list Decoder.string)
    Settings.goalEvents (by decide) Assigned.goalEvents
  hintPathBoss := given_of_assignMembers hassigned "hintPathBoss" Decoder.bool
    Settings.hintPathBoss (by decide) Assigned.hintPathBoss
  hintPathEndBoss := given_of_assignMembers hassigned "hintPathEndBoss" Decoder.bool
    Settings.hintPathEndBoss (by decide) Assigned.hintPathEndBoss
  bosses := given_of_assignMembers hassigned "bosses" (Decoder.list BossSetting.ofJson)
    Settings.bosses (by decide) Assigned.bosses
  endBosses := given_of_assignMembers hassigned "endBosses" (Decoder.list BossSetting.ofJson)
    Settings.endBosses (by decide) Assigned.endBosses
  heroHints := given_of_assignMembers hassigned "heroHints" Decoder.word64 Settings.heroHints
    (by decide) Assigned.heroHints
  values := exists_value_of_filter hentries
  options := find?_of_filter hentries

end Assigning

/-- A document is read as settings exactly when it is an object that its fields and options
split. -/
theorem ofJson_eq_ok_iff {json : Json} {settings : Settings} :
    ofJson json = .ok settings ↔ ∃ members, json = .object members ∧ Splits members settings := by
  rw [ofJson_eq_ok]
  constructor
  · rintro ⟨members, result, entries, rfl, hassigned, hentries, rfl⟩
    exact ⟨members, rfl, splits_of_assignMembers hassigned hentries⟩
  · rintro ⟨members, rfl, hsplits⟩
    obtain ⟨entries, hentries⟩ : ∃ entries,
        (members.filter fun member => !fields.contains member.1).mapM option = .ok entries := by
      refine Outcome.exists_mapM_of_forall fun member hmem => ?_
      rcases List.mem_filter.mp hmem with ⟨hmem, hfield⟩
      rcases hsplits.values member hmem (by simpa using hfield) with ⟨value, hvalue⟩
      exact ⟨(member.1, value), option_eq_ok.mpr (Prod.ext rfl hvalue)⟩
    obtain ⟨result, hassigned⟩ : ∃ result, Decoder.assignMembers fields assign Decoder.flawless []
        default members = .ok result := by
      refine Decoder.exists_assignMembers ?_ ?_ ?_
      · rw [forall_mem_fields]
        exact ⟨hsplits.players.length_le, hsplits.goalEvents.length_le,
          hsplits.hintPathBoss.length_le, hsplits.hintPathEndBoss.length_le,
          hsplits.bosses.length_le, hsplits.endBosses.length_le, hsplits.heroHints.length_le⟩
      · exact fun member hmem hfield =>
          exists_assign_of_splits hsplits member.1 hfield member.2 hmem
      · intro member hmem hfield
        rcases hsplits.values member hmem hfield with ⟨value, hvalue⟩
        rw [hvalue]
        cases value <;> rfl
    rw [mapM_option_eq_ok] at hentries
    exact ⟨members, result, entries, rfl, hassigned, hentries,
      (splits_of_assignMembers hassigned hentries).unique hsplits⟩

/-! ## Writing -/

/-- Settings that a document can hold: the numbers are words, and no option has the name of a
field. -/
structure Fits (settings : Settings) : Prop where
  players : settings.players < Nat.pow 2 64
  heroHints : settings.heroHints < Nat.pow 2 64
  options : ∀ entry ∈ settings.options.entries, entry.1 ∉ fields

/-- What was read can be written. -/
theorem Splits.fits {members : List (String × Json)} {settings : Settings}
    (hsplits : Splits members settings) : settings.Fits where
  players := hsplits.players.elim (by decide) fun _ _ hvalue =>
    (Decoder.eq_of_naturalBelow hvalue).2
  heroHints := hsplits.heroHints.elim (by decide) fun _ _ hvalue =>
    (Decoder.eq_of_naturalBelow hvalue).2
  options entry hmem hfield := by
    have hname := hsplits.options entry.1
    rw [if_pos hfield, Dict.find?_eq_some_iff.mpr hmem] at hname
    cases hname

/-- The members of the fields. -/
def fieldMembers (settings : Settings) : List (String × Json) :=
  [("players", .natural settings.players),
    ("goalEvents", .array (settings.goalEvents.map .string)),
    ("hintPathBoss", .bool settings.hintPathBoss),
    ("hintPathEndBoss", .bool settings.hintPathEndBoss),
    ("bosses", .array (settings.bosses.map BossSetting.toJson)),
    ("endBosses", .array (settings.endBosses.map BossSetting.toJson)),
    ("heroHints", .natural settings.heroHints)]

theorem toJson_eq (settings : Settings) : settings.toJson =
    .object (settings.fieldMembers ++ settings.options.entries.map memberOf) :=
  rfl

/-- The members that are written split into what was written. -/
theorem Fits.splits {settings : Settings} (hfits : settings.Fits) :
    Splits (settings.fieldMembers ++ settings.options.entries.map memberOf) settings := by
  have hothers : ∀ member ∈ settings.options.entries.map memberOf, member.1 ∉ fields := by
    rw [List.forall_mem_map]
    exact hfits.options
  have hne : ∀ key ∈ fields, ∀ member ∈ settings.options.entries.map memberOf,
      member.1 ≠ key := fun key hkey member hmem heq => hothers member hmem (heq ▸ hkey)
  have hfilter : (settings.fieldMembers ++ settings.options.entries.map memberOf).filter
      (fun member => !fields.contains member.1) = settings.options.entries.map memberOf := by
    have hself : (settings.options.entries.map memberOf).filter
        (fun member => !fields.contains member.1) = settings.options.entries.map memberOf :=
      List.filter_eq_self.mpr fun member hmem => by simpa using hothers member hmem
    rw [List.filter_append, hself]
    rfl
  constructor
  case players =>
    exact Decoder.given_append (hne _ (by decide)) rfl (Decoder.word64_natural hfits.players)
  case goalEvents =>
    exact Decoder.given_append (hne _ (by decide)) rfl (Decoder.list_map fun _ _ => rfl)
  case hintPathBoss => exact Decoder.given_append (hne _ (by decide)) rfl rfl
  case hintPathEndBoss => exact Decoder.given_append (hne _ (by decide)) rfl rfl
  case bosses =>
    exact Decoder.given_append (hne _ (by decide)) rfl (Decoder.list_map fun _ _ => rfl)
  case endBosses =>
    exact Decoder.given_append (hne _ (by decide)) rfl (Decoder.list_map fun _ _ => rfl)
  case heroHints =>
    exact Decoder.given_append (hne _ (by decide)) rfl (Decoder.word64_natural hfits.heroHints)
  case values => exact exists_value_of_filter hfilter
  case options =>
    intro name
    rw [← find?_of_filter hfilter, Dict.ofList_entries]

theorem Fits.ofJson_toJson {settings : Settings} (hfits : settings.Fits) :
    ofJson settings.toJson = .ok settings :=
  ofJson_eq_ok_iff.mpr ⟨_, settings.toJson_eq, hfits.splits⟩

theorem Fits.proper {settings : Settings} (hfits : settings.Fits) :
    Proper 3 settings.toJson := by
  have hboss : ∀ boss : BossSetting, Proper 1 boss.toJson := by
    intro boss
    refine .object ?_
    rw [List.forall_mem_cons, List.forall_mem_cons, List.forall_mem_singleton]
    exact ⟨.string _, .string _, .string _⟩
  refine .object (List.forall_mem_append.mpr ⟨?_, ?_⟩)
  · iterate 7 rw [List.forall_mem_cons]
    refine ⟨.natural hfits.players, .array ?_, .bool _, .bool _, .array ?_, .array ?_,
      .natural hfits.heroHints, List.forall_mem_nil _⟩
    · rw [List.forall_mem_map]
      exact fun event _ => .string event
    · rw [List.forall_mem_map]
      exact fun boss _ => (hboss boss).mono (by decide)
    · rw [List.forall_mem_map]
      exact fun boss _ => (hboss boss).mono (by decide)
  · rw [List.forall_mem_map]
    rintro ⟨name, value⟩ _
    cases value with
    | flag value => exact .bool value
    | name value => exact .string value

/-- Settings are found in every text that spells their document. -/
theorem Fits.ofText_of_spells {settings : Settings} (hfits : settings.Fits) {text : String}
    (hspells : Spells maxNesting settings.toJson text.toList) : ofText text = .ok settings := by
  rw [ofText, Json.firstOfText_of_spells hspells (Nat.le_refl _)]
  exact hfits.ofJson_toJson

/-- A text is read as settings exactly when its first value is an object that splits into
them: fields are given at most once and have defaults, and each other member is an option, of
which the last value counts.  What was read is written so that the same is read again. -/
theorem ofText_splits (text : String) (settings : Settings) :
    (ofText text = .ok settings ↔
      ∃ members, (Json.firstOfText text).1 = .object members ∧ Splits members settings) ∧
    (ofText text = .ok settings →
      ∀ document ∈ [settings.toJson.render, settings.toJson.pretty],
        ∃ again, ofText document = .ok again ∧ again = settings ∧
          (∀ name, again.options.find? name = settings.options.find? name ∧
            again.options.knows name = settings.options.knows name) ∧
          ∀ key, again.options.isEnabled key = settings.options.isEnabled key) := by
  refine ⟨ofJson_eq_ok_iff, fun hread document hdocument => ?_⟩
  rcases ofJson_eq_ok_iff.mp hread with ⟨members, -, hsplits⟩
  have hproper := hsplits.fits.proper.mono (by decide : 3 ≤ maxNesting)
  refine ⟨settings, ?_, rfl, fun name => ⟨rfl, rfl⟩, fun key => rfl⟩
  rw [List.mem_cons, List.mem_singleton] at hdocument
  rcases hdocument with rfl | rfl
  · exact hsplits.fits.ofText_of_spells (Json.spells_render hproper)
  · exact hsplits.fits.ofText_of_spells (Json.spells_pretty hproper)

/-- A document with a repeated option, one whose name is nearly that of a field, and text
behind its object. -/
def storm : String :=
  "\x7b\"Players\": false, \"rain\": true, \"players\":2 ,\"rain\":\"ice\"\x7d, 1"

theorem ofText_splits_storm :
    ∃ settings, ofText storm = .ok settings ∧ settings.players = 2 ∧ settings.heroHints = 0 ∧
      settings.options.find? "rain" = some (.name "ice") ∧
      settings.options.isEnabled ⟨"Players", some "false"⟩ = true ∧
      settings.options.knows "players" = false ∧
      ofText settings.toJson.pretty = .ok settings := by
  obtain ⟨settings, hread⟩ : ∃ settings, ofText storm = .ok settings := ⟨_, rfl⟩
  rcases (ofText_splits storm settings).2 hread settings.toJson.pretty (by simp) with
    ⟨again, hagain, rfl, -⟩
  refine ⟨again, hread, ?_, ?_, ?_, ?_, ?_, hagain⟩
  all_goals
    cases hread
    decide +kernel

end Settings

end SeedLogic
