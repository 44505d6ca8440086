import SeedLogic.Proofs.Pathfinder.Stages

/-!
# The order of tables

Tables are numbered and linked in the order in which they are given.  By name, the order does
not matter: worlds are built from all orders of the tables or from none, and a search by name
finds the same in the worlds of all orders, in the same spheres (`findings_perm`).
-/

namespace SeedLogic

namespace NamedSearch

variable {names : NamedSearch} {settings : Options} {declared : List Declaration}
  {first second : World} {tables other : List GameTable} {known : Options}

/-- Searches by name find the same in worlds that depict the same entries. -/
theorem findings_eq_of_depicts (hfirst : first.Depicts declared) (hsecond : second.Depicts declared)
    (hcoherent : first.Coherent tables known) (hcoherent' : second.Coherent other known)
    (hpositive : first.Positive) {search search' : Search}
    (hrun : names.run settings first = .ok search)
    (hrun' : names.run settings second = .ok search') :
    first.findings search.state = second.findings search'.state := by
  rcases exists_findings_of_run hfirst hcoherent hpositive hrun with ⟨last, hlast⟩
  rcases exists_findings_of_run hsecond hcoherent' (hfirst.positive hsecond hpositive) hrun' with
    ⟨last', hlast'⟩
  -- Both searches are over by the later of their ends.
  calc first.findings search.state
      = names.findings settings declared (max last last') := hlast _ (Nat.le_max_left ..)
    _ = second.findings search'.state := (hlast' _ (Nat.le_max_right ..)).symm

/-- The order of the tables does not matter.  From tables in two orders, worlds are built or
none is.  In both worlds, a search by name succeeds or fails, whatever it starts with and
wherever items are placed; and when requirements are positive, it reaches the same names, ends
with as many of every item, and has the same slots in its spheres. -/
theorem findings_perm (hperm : tables.Perm other) (known : Options)
    (constraint : String → Constraint) :
    ((∃ world, (World.build tables known constraint).result = .ok world) ↔
      ∃ world, (World.build other known constraint).result = .ok world) ∧
    ∀ first second, (World.build tables known constraint).result = .ok first →
      (World.build other known constraint).result = .ok second →
      ∀ (names : NamedSearch) (settings : Options),
        ((∃ search, names.run settings first = .ok search) ↔
          ∃ search, names.run settings second = .ok search) ∧
        (first.Positive → ∀ search search', names.run settings first = .ok search →
          names.run settings second = .ok search' →
            first.findings search.state = second.findings search'.state) := by
  constructor
  · rw [World.exists_build_iff, World.exists_build_iff]
    exact ⟨fun hconsistent => hconsistent.perm hperm,
      fun hconsistent => hconsistent.perm hperm.symm⟩
  · intro first second hfirst hsecond names settings
    have hdepicts := World.depicts_of_build hfirst
    have hdepicts' := (World.depicts_of_build hsecond).perm
      (GameTable.perm_allDeclarations hperm).symm
    have hcoherent := World.coherent_of_build hfirst
    have hcoherent' := World.coherent_of_build hsecond
    constructor
    · rw [exists_run_iff hdepicts hcoherent, exists_run_iff hdepicts' hcoherent']
    · intro hpositive search search' hrun hrun'
      exact findings_eq_of_depicts hdepicts hdepicts' hcoherent hcoherent' hpositive hrun hrun'

/-! ## The meadow and a town -/

/-- The table of a town, from which a mask leads to the meadow. -/
def townTable : GameTable :=
  { GameTable.bare .mm with
    start := ["Town"]
    areas := .ofList [
      ("Town",
        { RawArea.bare with
          locations := .ofList [("Bell", "true")]
          exits := .ofList [("OOT Meadow", "has(MASK)")] })]
    pool := [⟨"Bell", .numeric .chest, "SQUARE", .number 0, "MASK"⟩] }

/-- A search from the town, with the mask at the bell and the swords in their places. -/
def townSearch : NamedSearch where
  start? := some ["MM Town"]
  items := [("OOT_SWORD", 1)]
  events := []
  placement := .ofList [("MM Bell", "MM_MASK"), ("OOT Chest", "OOT_SWORD")]
  forbidden := []
  gossips := false

/-- The settings of the meadow. -/
def townSettings : Options :=
  .ofList [("hard", .flag false)]

/-- The world of the meadow and the town, in this order. -/
def meadowAndTown : World where
  areas := World.meadow.areas ++ [
    ⟨"MM Town", .mm, none, [⟨2, .const true⟩], [⟨1, .hasItem 1 1⟩], [], []⟩]
  checks := World.meadow.checks ++ [
    ⟨"MM Bell", .mm, "MM_SQUARE", "MM_MASK", .numeric .chest 0, .anywhere, none⟩]
  gossips := []
  dungeons := .empty
  starts := [1, 2]
  symbols := { World.meadow.symbols with items := ⟨["OOT_SWORD", "MM_MASK"], by decide⟩ }

/-- The world of the town and the meadow. -/
def townAndMeadow : World where
  areas := [
    ⟨"MM Town", .mm, none, [⟨0, .const true⟩], [⟨2, .hasItem 0 1⟩], [], []⟩,
    ⟨"OOT Cave", .oot, none, [⟨2, .hasItem 1 2⟩], [], [], []⟩,
    ⟨"OOT Meadow", .oot, none, [⟨1, .const true⟩],
      [⟨1, .and [.hasEvent 0, .not (.setting 0)]⟩], [⟨0, .hasItem 1 1⟩], []⟩]
  checks := [
    ⟨"MM Bell", .mm, "MM_SQUARE", "MM_MASK", .numeric .chest 0, .anywhere, none⟩] ++
      World.meadow.checks
  gossips := []
  dungeons := .empty
  starts := [0, 2]
  symbols := { World.meadow.symbols with items := ⟨["MM_MASK", "OOT_SWORD"], by decide⟩ }

/-- The bell is found before the chest and the chest before the pool, whichever table is
first; their numbers are others. -/
theorem findings_perm_town :
    (World.build [townTable, World.meadowTable] townSettings fun _ => .anywhere).result =
        .ok townAndMeadow ∧
      (World.build [World.meadowTable, townTable] townSettings fun _ => .anywhere).result =
        .ok meadowAndTown ∧
      ∃ search search', townSearch.run townSettings townAndMeadow = .ok search ∧
        townSearch.run townSettings meadowAndTown = .ok search' ∧
        search.state.spheres = [[⟨0, 0⟩], [⟨0, 1⟩], [⟨0, 2⟩]] ∧
        search'.state.spheres = [[⟨0, 2⟩], [⟨0, 0⟩], [⟨0, 1⟩]] ∧
        townAndMeadow.findings search.state = meadowAndTown.findings search'.state := by
  have hfirst : (World.build [townTable, World.meadowTable] townSettings
      fun _ => .anywhere).result = .ok townAndMeadow := rfl
  have hsecond : (World.build [World.meadowTable, townTable] townSettings
      fun _ => .anywhere).result = .ok meadowAndTown := rfl
  obtain ⟨search, hrun, hspheres⟩ : ∃ search,
      townSearch.run townSettings townAndMeadow = .ok search ∧
        search.state.spheres = [[⟨0, 0⟩], [⟨0, 1⟩], [⟨0, 2⟩]] :=
    ⟨_, rfl, rfl⟩
  obtain ⟨search', hrun', hspheres'⟩ : ∃ search',
      townSearch.run townSettings meadowAndTown = .ok search' ∧
        search'.state.spheres = [[⟨0, 2⟩], [⟨0, 0⟩], [⟨0, 1⟩]] :=
    ⟨_, rfl, rfl⟩
  have hperm := List.Perm.swap World.meadowTable townTable []
  have hsame := ((findings_perm hperm townSettings fun _ => .anywhere).2 _ _ hfirst hsecond
    townSearch townSettings).2 (by decide) search search' hrun hrun'
  exact ⟨hfirst, hsecond, search, search', hrun, hrun', hspheres, hspheres', hsame⟩

end NamedSearch

end SeedLogic
