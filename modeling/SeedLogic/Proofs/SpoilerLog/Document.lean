import SeedLogic.Check.Codec
import SeedLogic.Proofs.Requirement.Document
import SeedLogic.SpoilerLog.Codec

/-!
# Documents of the program and their values

Every value that the program writes as a document is found in it again: requirements,
kinds of checks, locations, hints, kinds of paths and spoiler logs
(`documents_carry`).  The kind of a path stands beside the fields of the path,
and a hint beside those of its stone; no member of one is a member of the other.
-/

namespace SeedLogic

open Json (Decoder Proper Carries maxNesting)

/-! ## Kinds of checks -/

namespace CheckKind

/-- Numbers of checks have 32 bits. -/
def Fits : CheckKind → Prop
  | .numeric _ id => id < Nat.pow 2 32
  | .symbolic _ _ => True

theorem ofJson_toJson : ∀ kind : CheckKind, kind.Fits → ofJson kind.toJson = .ok kind
  | .numeric kind id, hfits => by
      have hkind := Decoder.case_string (NumericKind.ofName?_name kind)
      have hid := Decoder.word32_natural hfits
      simp only [toJson, ofJson, numericOfJson, Decoder.record_object, Decoder.recordOfMembers,
        Decoder.assignMembers, shape, hkind, hid]
      rfl
  | .symbolic kind id, _ => by
      have hkind := Decoder.case_string (SymbolicKind.ofName?_name kind)
      simp only [toJson, ofJson, symbolicOfJson, Decoder.record_object, Decoder.recordOfMembers,
        Decoder.assignMembers, shape, hkind]
      rfl

theorem proper_toJson (kind : CheckKind) (hfits : kind.Fits) : Proper 2 kind.toJson := by
  cases kind with
  | numeric kind id =>
      have hword : id < Nat.pow 2 64 := Nat.lt_of_lt_of_le hfits (by decide)
      refine Proper.single (.object ?_)
      simp only [List.forall_mem_cons]
      exact ⟨.string _, .natural hword, List.forall_mem_nil _⟩
  | symbolic kind id =>
      refine Proper.single (.object ?_)
      simp only [List.forall_mem_cons]
      exact ⟨.string _, .string _, List.forall_mem_nil _⟩

end CheckKind

/-! ## Locations -/

namespace Location

/-- The numbers of a location have 64 bits. -/
structure Fits (location : Location) : Prop where
  world : location.world < Nat.pow 2 64
  check : location.check < Nat.pow 2 64

theorem Fits.ofJson_toJson {location : Location} (hfits : location.Fits) :
    ofJson location.toJson = .ok location :=
  location.ofJson_toJson hfits.world hfits.check

theorem Fits.proper {location : Location} (hfits : location.Fits) {depth : Nat} :
    Proper (depth + 1) location.toJson := by
  refine .object ?_
  simp only [List.forall_mem_cons]
  exact ⟨.natural hfits.world, .natural hfits.check, List.forall_mem_nil _⟩

end Location

/-! ## Hints -/

namespace Hint

/-- The locations of a hint have numbers of 64 bits. -/
def Fits : Hint → Prop
  | .hero location => location.Fits
  | .itemExact locations => ∀ location ∈ locations, location.Fits
  | .foolish _ => True

theorem proper_members : ∀ {hint : Hint}, hint.Fits → ∀ member ∈ hint.members, Proper 2 member.2
  | .hero location, hfits => by
      simp only [members, List.forall_mem_cons]
      exact ⟨.string _, hfits.proper, List.forall_mem_nil _⟩
  | .itemExact locations, hfits => by
      have hlocations : ∀ element ∈ locations.map Location.toJson, Proper 1 element := by
        rw [List.forall_mem_map]
        exact fun location hmem => (hfits location hmem).proper
      simp only [members, List.forall_mem_cons]
      exact ⟨.string _, .array hlocations, List.forall_mem_nil _⟩
  | .foolish region, _ => by
      simp only [members, List.forall_mem_cons]
      exact ⟨.string _, .string _, List.forall_mem_nil _⟩

/-- The hint is found among its members, however its variant is looked up by the tag. -/
theorem tagged_members {variantOf? : Json → Option (Decoder Hint)}
    (hvariant : ∀ name, variantOf? (.string name) = variants.lookup name) (hint : Hint)
    (hfits : hint.Fits) : Decoder.tagged variantOf? (.object hint.members) = .ok hint := by
  have hproper := proper_members hfits
  cases hint with
  | hero location =>
      rw [members, Decoder.tagged_object hproper (by simp) (hvariant "hero"),
        Decoder.single_object hfits.ofJson_toJson]
      rfl
  | itemExact locations =>
      have hlocations := Decoder.list_map fun location hmem => (hfits location hmem).ofJson_toJson
      rw [members, Decoder.tagged_object hproper (by simp) (hvariant "item-exact"),
        Decoder.single_object hlocations]
      rfl
  | foolish region =>
      rw [members, Decoder.tagged_object hproper (by simp) (hvariant "foolish")]
      rfl

theorem ofJson_toJson (hint : Hint) (hfits : hint.Fits) : ofJson hint.toJson = .ok hint :=
  tagged_members (fun _ => rfl) hint hfits

theorem proper_toJson (hint : Hint) (hfits : hint.Fits) : Proper 3 hint.toJson :=
  .object (proper_members hfits)

end Hint

/-! ## Kinds of paths -/

namespace PathKind

/-- The world of a boss has a number of 64 bits. -/
def Fits : PathKind → Prop
  | .woth => True
  | .boss _ world => world < Nat.pow 2 64
  | .endBoss _ world => world < Nat.pow 2 64

theorem proper_members {kind : PathKind} (hfits : kind.Fits) :
    ∀ member ∈ kind.members, Proper 0 member.2 := by
  cases kind with
  | woth =>
      simp only [members, List.forall_mem_cons]
      exact ⟨.string _, List.forall_mem_nil _⟩
  | boss name world =>
      simp only [members, bossMembers, List.forall_mem_cons]
      exact ⟨.string _, .string _, .natural hfits, List.forall_mem_nil _⟩
  | endBoss name world =>
      simp only [members, bossMembers, List.forall_mem_cons]
      exact ⟨.string _, .string _, .natural hfits, List.forall_mem_nil _⟩

theorem bossOfJson_object (name : String) {world : WorldId} (hworld : world < Nat.pow 2 64) :
    bossOfJson (.object [("boss", .string name), ("world", .natural world)]) =
      .ok (name, world) := by
  simp only [bossOfJson, Decoder.record_object, Decoder.recordOfMembers, Decoder.assignMembers,
    Decoder.word64_natural hworld]
  rfl

/-- The kind is found among its members, however its variant is looked up by the tag. -/
theorem tagged_members {variantOf? : Json → Option (Decoder PathKind)}
    (hvariant : ∀ name, variantOf? (.string name) = variants.lookup name) (kind : PathKind)
    (hfits : kind.Fits) : Decoder.tagged variantOf? (.object kind.members) = .ok kind := by
  have hproper := proper_members hfits
  cases kind with
  | woth =>
      rw [members, Decoder.tagged_object hproper (List.forall_mem_nil _) (hvariant "woth")]
      rfl
  | boss name world =>
      rw [members, bossMembers, Decoder.tagged_object hproper (by simp) (hvariant "boss"),
        bossOfJson_object name hfits]
      rfl
  | endBoss name world =>
      rw [members, bossMembers, Decoder.tagged_object hproper (by simp) (hvariant "end-boss"),
        bossOfJson_object name hfits]
      rfl

theorem ofJson_toJson (kind : PathKind) (hfits : kind.Fits) : ofJson kind.toJson = .ok kind :=
  tagged_members (fun _ => rfl) kind hfits

theorem proper_toJson (kind : PathKind) (hfits : kind.Fits) : Proper 1 kind.toJson :=
  .object (proper_members hfits)

end PathKind

/-! ## Locations of logs -/

namespace SpoilerLocation

/-- The world of a location has a number of 64 bits. -/
def Fits (location : SpoilerLocation) : Prop :=
  location.world < Nat.pow 2 64

theorem Fits.ofJson_toJson {location : SpoilerLocation} (hfits : location.Fits) :
    ofJson location.toJson = .ok location := by
  rcases location with ⟨world, location, scene, item?⟩
  cases item? with
  | none =>
      simp only [ofJson, toJson, Decoder.record_object, Decoder.recordOfMembers,
        Decoder.assignMembers, shape, assign, Decoder.word64_natural hfits]
      rfl
  | some item =>
      simp only [ofJson, toJson, Decoder.record_object, Decoder.recordOfMembers,
        Decoder.assignMembers, shape, assign, Decoder.word64_natural hfits]
      rfl

theorem Fits.proper {location : SpoilerLocation} (hfits : location.Fits) :
    Proper 1 location.toJson := by
  refine .object ?_
  simp only [List.forall_mem_cons]
  refine ⟨.natural hfits, .string _, .string _, ?_, List.forall_mem_nil _⟩
  cases location.item? with
  | none => exact .null
  | some item => exact .string item

end SpoilerLocation

namespace SpoilerLog

theorem ofJson_locations {locations : List SpoilerLocation}
    (hfits : ∀ location ∈ locations, location.Fits) :
    Decoder.list SpoilerLocation.ofJson (locationsToJson locations) = .ok locations :=
  Decoder.list_map fun location hmem => (hfits location hmem).ofJson_toJson

theorem proper_locations {locations : List SpoilerLocation}
    (hfits : ∀ location ∈ locations, location.Fits) : Proper 2 (locationsToJson locations) := by
  refine .array ?_
  rw [List.forall_mem_map]
  exact fun location hmem => (hfits location hmem).proper

/-! ## Values beside fields -/

/-- Members stand beside the fields of a record: none of them has the key of another. -/
def Beside (members : List (String × Json)) (shape : Decoder.Shape) : Prop :=
  (members.map Prod.fst ++ shape.fields).Nodup

theorem beside_pathShape (kind : PathKind) : Beside kind.members pathShape := by
  cases kind <;> simp [Beside, PathKind.members, PathKind.bossMembers, pathShape]

theorem beside_hintShape (hint : Hint) : Beside hint.members hintShape := by
  cases hint <;> simp [Beside, Hint.members, hintShape]

section Beside

variable {members : List (String × Json)} {shape : Decoder.Shape}
  (hbeside : Beside members shape)
include hbeside

theorem Beside.not_mem_fields : ∀ member ∈ members, member.1 ∉ shape.fields :=
  fun _ hmem hfield =>
    (List.nodup_append.mp hbeside).2.2 _ (List.mem_map_of_mem hmem) _ hfield rfl

/-- They are what is left of an object without the fields of the record. -/
theorem Beside.filter_eq :
    members.filter (fun member => !shape.fields.contains member.1) = members := by
  rw [List.filter_eq_self]
  intro member hmem
  simpa using hbeside.not_mem_fields member hmem

end Beside

/-- A path is found in its document, and its kind beside its locations. -/
theorem pathOfJson_toJson {path : SpoilerPath} (hkind : path.kind.Fits)
    (hlocations : ∀ location ∈ path.locations, location.Fits) :
    pathOfJson (pathToJson path) = .ok path := by
  have hbeside := beside_pathShape path.kind
  have hskip : ∀ member ∈ path.kind.members, Decoder.flawless member.2 = .ok () :=
    fun member hmem => Decoder.flawless_of_proper (PathKind.proper_members hkind member hmem)
  have hassigned : Decoder.assignMembers pathShape.fields
      (fun _ _ json => Decoder.list SpoilerLocation.ofJson json) Decoder.flawless [] []
      (path.kind.members ++ [("locations", locationsToJson path.locations)]) =
        .ok (path.locations, ["locations"]) := by
    rw [Decoder.assignMembers_append _ hbeside.not_mem_fields hskip]
    exact Decoder.assignMembers_cons [] (by decide) (by decide) (ofJson_locations hlocations)
  have hfound : beside PathKind.variants pathShape
      (path.kind.members ++ [("locations", locationsToJson path.locations)]) = .ok path.kind := by
    rw [beside, List.filter_append, hbeside.filter_eq]
    exact (List.append_nil path.kind.members).symm ▸
      PathKind.tagged_members (fun _ => rfl) path.kind hkind
  rw [pathToJson, pathOfJson, Decoder.recordOfMembers, hassigned, hfound]
  rfl

/-- A hint of the log is found in its document, and what the stone tells beside the stone. -/
theorem hintOfJson_toJson {entry : SpoilerHint} (hworld : entry.world < Nat.pow 2 64)
    (hhint : entry.hint.Fits) : hintOfJson (hintToJson entry) = .ok entry := by
  have hbeside := beside_hintShape entry.hint
  have hskip : ∀ member ∈ entry.hint.members, Decoder.flawless member.2 = .ok () :=
    fun member hmem => Decoder.flawless_of_proper (Hint.proper_members hhint member hmem)
  have hfound : beside Hint.variants hintShape
      ([("world", .natural entry.world), ("gossip", .string entry.gossip)] ++
        entry.hint.members) = .ok entry.hint := by
    rw [beside, List.filter_append, hbeside.filter_eq]
    exact Hint.tagged_members (fun _ => rfl) entry.hint hhint
  have hassigned : ∀ assign : Decoder.Assign (WorldId × String),
      assign (0, "") "world" (.natural entry.world) = .ok (entry.world, "") →
      assign (entry.world, "") "gossip" (.string entry.gossip) =
        .ok (entry.world, entry.gossip) →
      Decoder.assignMembers hintShape.fields assign Decoder.flawless [] (0, "")
        ([("world", .natural entry.world), ("gossip", .string entry.gossip)] ++
          entry.hint.members) = .ok ((entry.world, entry.gossip), ["gossip", "world"]) := by
    intro assign hfirst hsecond
    rw [List.cons_append, List.cons_append, List.nil_append,
      Decoder.assignMembers_cons _ (by decide) (by decide) hfirst,
      Decoder.assignMembers_cons _ (by decide) (by decide) hsecond,
      ← List.append_nil entry.hint.members,
      Decoder.assignMembers_append [] hbeside.not_mem_fields hskip]
    rfl
  rw [hintToJson, hintOfJson, hfound, Decoder.recordOfMembers, hassigned]
  · rfl
  · simp only [Decoder.word64_natural hworld]
    rfl
  · rfl

/-! ## Logs -/

/-- All numbers of worlds and checks in a log have 64 bits. -/
structure Fits (log : SpoilerLog) : Prop where
  spheres : ∀ sphere ∈ log.spheres, ∀ location ∈ sphere, location.Fits
  required : ∀ location ∈ log.required, location.Fits
  unreachable : ∀ location ∈ log.unreachable, location.Fits
  kinds : ∀ path ∈ log.paths, path.kind.Fits
  paths : ∀ path ∈ log.paths, ∀ location ∈ path.locations, location.Fits
  stones : ∀ entry ∈ log.hints, entry.world < Nat.pow 2 64
  hints : ∀ entry ∈ log.hints, entry.hint.Fits

theorem Fits.ofJson_toJson {log : SpoilerLog} (hfits : log.Fits) :
    ofJson log.toJson = .ok log := by
  have hspheres : Decoder.list (Decoder.list SpoilerLocation.ofJson)
      (.array (log.spheres.map locationsToJson)) = .ok log.spheres :=
    Decoder.list_map fun sphere hmem => ofJson_locations (hfits.spheres sphere hmem)
  have hpaths : Decoder.list pathOfJson (.array (log.paths.map pathToJson)) = .ok log.paths :=
    Decoder.list_map fun path hmem => pathOfJson_toJson (hfits.kinds path hmem)
      (hfits.paths path hmem)
  have hhints : Decoder.list hintOfJson (.array (log.hints.map hintToJson)) = .ok log.hints :=
    Decoder.list_map fun entry hmem => hintOfJson_toJson (hfits.stones entry hmem)
      (hfits.hints entry hmem)
  simp only [ofJson, toJson, Decoder.record_object, Decoder.recordOfMembers,
    Decoder.assignMembers, shape, assign, hspheres, ofJson_locations hfits.required,
    ofJson_locations hfits.unreachable, hpaths, hhints]
  rfl

theorem Fits.proper {log : SpoilerLog} (hfits : log.Fits) : Proper 5 log.toJson := by
  refine .object ?_
  simp only [List.forall_mem_cons]
  refine ⟨.array ?_, ?_, ?_, .array ?_, .array ?_, List.forall_mem_nil _⟩
  · rw [List.forall_mem_map]
    exact fun sphere hmem => (proper_locations (hfits.spheres sphere hmem)).mono (by decide)
  · exact (proper_locations hfits.required).mono (by decide)
  · exact (proper_locations hfits.unreachable).mono (by decide)
  · rw [List.forall_mem_map]
    intro path hmem
    refine .object (List.forall_mem_append.mpr ⟨fun member hmember => ?_, ?_⟩)
    · exact (PathKind.proper_members (hfits.kinds path hmem) member hmember).mono (by decide)
    · simp only [List.forall_mem_cons]
      exact ⟨proper_locations (hfits.paths path hmem), List.forall_mem_nil _⟩
  · rw [List.forall_mem_map]
    intro entry hmem
    refine .object (List.forall_mem_append.mpr ⟨?_, fun member hmember => ?_⟩)
    · simp only [List.forall_mem_cons]
      exact ⟨.natural (hfits.stones entry hmem), .string _, List.forall_mem_nil _⟩
    · exact Hint.proper_members (hfits.hints entry hmem) member hmember

end SpoilerLog

/-- Every value is found in its document and in the texts of it.  A requirement is found in
its document at any depth, and in the texts when it nests no deeper than texts may, and then
only.  No member of the kind of a path is a field of the path, and no member of a hint is a
field of its stone. -/
theorem documents_carry :
    (∀ requirement : Requirement, requirement.Fits →
      Requirement.ofJson requirement.toJson = .ok requirement ∧
      (Carries Requirement.ofJson requirement.toJson requirement ↔
        requirement.nesting ≤ maxNesting)) ∧
    (∀ kind : CheckKind, kind.Fits → Carries CheckKind.ofJson kind.toJson kind) ∧
    (∀ location : Location, location.Fits →
      Carries Location.ofJson location.toJson location) ∧
    (∀ hint : Hint, hint.Fits → Carries Hint.ofJson hint.toJson hint) ∧
    (∀ kind : PathKind, kind.Fits → Carries PathKind.ofJson kind.toJson kind) ∧
    (∀ log : SpoilerLog, log.Fits → Carries SpoilerLog.ofJson log.toJson log) ∧
    (∀ kind : PathKind, SpoilerLog.Beside kind.members SpoilerLog.pathShape) ∧
    (∀ hint : Hint, SpoilerLog.Beside hint.members SpoilerLog.hintShape) := by
  refine ⟨fun requirement hfits => ⟨?_, fun hcarries => ?_, fun hle => ?_⟩,
    fun kind hfits => ?_, fun location hfits => ?_, fun hint hfits => ?_, fun kind hfits => ?_,
    fun log hfits => ?_, SpoilerLog.beside_pathShape, SpoilerLog.beside_hintShape⟩
  · exact requirement.ofJson_toJson hfits
  · exact Requirement.nesting_le_of_ofText hcarries.rendered
  · exact .of_proper (requirement.ofJson_toJson hfits) ((requirement.proper_toJson hfits).mono hle)
  · exact .of_proper (kind.ofJson_toJson hfits) ((kind.proper_toJson hfits).mono (by decide))
  · exact .of_proper hfits.ofJson_toJson hfits.proper
  · exact .of_proper (hint.ofJson_toJson hfits) ((hint.proper_toJson hfits).mono (by decide))
  · exact .of_proper (kind.ofJson_toJson hfits) ((kind.proper_toJson hfits).mono (by decide))
  · exact .of_proper hfits.ofJson_toJson (hfits.proper.mono (by decide))

/-- A requirement of every form, the largest numbers, and a log with a path and a hint whose
members look alike. -/
theorem documents_carry_largest :
    let word := Nat.pow 2 64 - 1
    let count := Nat.pow 2 32 - 1
    let requirement : Requirement := .atLeast count
      [.not (.hasItem word count), .and [.setting word, .or [], .const true], .hasEvent 0]
    let location : SpoilerLocation := ⟨word, "say \"type\"", "\\\n\t", none⟩
    let log : SpoilerLog := ⟨[[], [location, ⟨0, "Ä", "", some "\x01"⟩]], [location], [],
      [⟨.endBoss "locations" word, [location]⟩, ⟨.woth, []⟩],
      [⟨word, "gossip", .itemExact [⟨0, word⟩]⟩, ⟨1, "world", .foolish "hero"⟩]⟩
    (requirement.Fits ∧ requirement.nesting ≤ maxNesting ∧
      Requirement.ofText requirement.toJson.render = .ok requirement) ∧
    ((CheckKind.numeric .gs count).Fits ∧
      CheckKind.ofJson (CheckKind.numeric .gs count).toJson = .ok (.numeric .gs count)) ∧
    ((⟨word, 0⟩ : Location).Fits ∧ Location.ofJson (Location.mk word 0).toJson = .ok ⟨word, 0⟩) ∧
    ((Hint.hero ⟨word, 0⟩).Fits ∧
      Hint.ofText (Hint.hero ⟨word, 0⟩).toJson.render = .ok (.hero ⟨word, 0⟩)) ∧
    ((PathKind.boss "woth" word).Fits ∧
      PathKind.ofText (PathKind.boss "woth" word).toJson.pretty = .ok (.boss "woth" word)) ∧
    (log.Fits ∧ SpoilerLog.ofText log.toJson.pretty = .ok log) := by
  intro word count requirement location log
  have hword : word < Nat.pow 2 64 := by decide
  have hcount : count < Nat.pow 2 32 := by decide
  have hrequirement : requirement.Fits := by
    have hatoms : requirement.atoms =
        [.quorum count, .item word count, .setting word, .event 0] := rfl
    rw [Requirement.Fits, hatoms]
    simp only [List.forall_mem_cons]
    exact ⟨hcount, ⟨hword, hcount⟩, hword, Nat.two_pow_pos 64, List.forall_mem_nil _⟩
  have hzero : 0 < Nat.pow 2 64 := by decide
  have hlog : log.Fits := by
    constructor
    all_goals simp only [log, List.forall_mem_cons]
    · exact ⟨List.forall_mem_nil _, ⟨hword, hzero, List.forall_mem_nil _⟩, List.forall_mem_nil _⟩
    · exact ⟨hword, List.forall_mem_nil _⟩
    · exact List.forall_mem_nil _
    · exact ⟨hword, trivial, List.forall_mem_nil _⟩
    · exact ⟨⟨hword, List.forall_mem_nil _⟩, List.forall_mem_nil _, List.forall_mem_nil _⟩
    · exact ⟨hword, by decide, List.forall_mem_nil _⟩
    · refine ⟨?_, trivial, List.forall_mem_nil _⟩
      simp only [Hint.Fits, List.forall_mem_cons]
      exact ⟨⟨hzero, hword⟩, List.forall_mem_nil _⟩
  have hcheck : (CheckKind.numeric .gs count).Fits := hcount
  have hlocation : (⟨word, 0⟩ : Location).Fits := ⟨hword, hzero⟩
  have hhint : (Hint.hero ⟨word, 0⟩).Fits := hlocation
  have hkind : (PathKind.boss "woth" word).Fits := hword
  rcases documents_carry with ⟨hrequirements, hchecks, hlocations, hhints, hkinds, hlogs, -, -⟩
  exact ⟨⟨hrequirement, by decide, ((hrequirements _ hrequirement).2.mpr (by decide)).rendered⟩,
    ⟨hcheck, (hchecks _ hcheck).decoded⟩, ⟨hlocation, (hlocations _ hlocation).decoded⟩,
    ⟨hhint, (hhints _ hhint).rendered⟩, ⟨hkind, (hkinds _ hkind).pretty⟩,
    ⟨hlog, (hlogs _ hlog).pretty⟩⟩

end SeedLogic
