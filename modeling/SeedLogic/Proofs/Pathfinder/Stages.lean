import SeedLogic.Proofs.Pathfinder.Independence
import SeedLogic.Proofs.Pathfinder.NamedSearch

/-!
# Stages of a search by name

What a search by name finds is fixed by the entries that its world depicts.  After every
round, the names that are reached are the least set that has those reached before and is
closed under the rules by name, with the items of the slots found before (`stage`); the names
of the spheres are what is new from stage to stage (`sphereNames`).  A search has found all
that after its last round (`exists_findings_of_run`), whatever the numbers of its world are.
-/

namespace SeedLogic

/-! ## What is found, by name -/

/-- What a search finds: what is reached, how many of each item the player has, and the slots
of each sphere. -/
structure Findings where
  reached : Set NamedFact
  count : String → Option Nat
  spheres : List (Set String)

namespace World

/-- The names of locations. -/
def slots (world : World) (sphere : List Location) : Set String :=
  {slot | ∃ location ∈ sphere, world.nameOf? (.location location) = some (.location slot)}

/-- What has been found in a world, by name. -/
def findings (world : World) (state : SearchState) : Findings where
  reached := world.named state.facts
  count name := do
    let own ← state.worlds[0]?
    let item ← world.itemId? name
    some (own.inventory.count item)
  spheres := state.spheres.map world.slots

/-- Findings are read off the worlds and the spheres of a state. -/
theorem findings_congr (world : World) {state other : SearchState}
    (hworlds : state.worlds = other.worlds) (hspheres : state.spheres = other.spheres) :
    world.findings state = world.findings other := by
  rcases state with ⟨worlds, spheres, goal⟩
  rcases other with ⟨worlds', spheres', goal'⟩
  cases hworlds
  cases hspheres
  rfl

end World

namespace NamedSearch

/-! ## Stages -/

/-- How many of an item there are by the slots among some facts: those from the start, and
one for each slot where it is placed, as far as can be counted. -/
noncomputable def countAfter (names : NamedSearch) (reached : Set NamedFact) (name : String) :
    Nat :=
  (names.count name +
    {slot | .location slot ∈ reached ∧ names.placement.find? slot = some name}.ncard) %
      Inventory.modulus

variable (names : NamedSearch) (settings : Options) (declared : List Declaration)

/-- What a search by name begins with: the start areas and the starting events. -/
def beginning : Set NamedFact
  | .area name => names.IsStart declared name
  | .event name => name ∈ names.events
  | .location _ => False

/-- What is reached by name after some rounds: the least set that has what was reached one round
before and is closed under the rules, with the items at the slots reached by then. -/
noncomputable def stage : Nat → Set NamedFact
  | 0 => names.beginning declared
  | rounds + 1 =>
      sInf {reached | stage rounds ⊆ reached ∧
        names.RuleClosed settings declared (names.countAfter (stage rounds)) reached}

/-- The slots that are found in a round, counted from zero. -/
def fresh (round : Nat) : Set String :=
  {slot | .location slot ∈ names.stage settings declared (round + 1) ∧
    .location slot ∉ names.stage settings declared round}

open Classical in
/-- The slots that are found in each of some rounds, but for rounds that find none. -/
noncomputable def sphereNames : Nat → List (Set String)
  | 0 => []
  | rounds + 1 =>
      if names.fresh settings declared rounds = ∅ then sphereNames rounds
      else sphereNames rounds ++ [names.fresh settings declared rounds]

open Classical in
/-- What is found by name in some rounds. -/
noncomputable def findings (rounds : Nat) : Findings where
  reached := names.stage settings declared rounds
  count name :=
    if ∃ declaration ∈ declared, .item name ∈ declaration.provides then
      some (names.countAfter (names.stage settings declared rounds) name)
    else none
  spheres := names.sphereNames settings declared rounds

variable {names settings declared}

/-! ## The course of a search -/

/-- A search by name has begun in a world that depicts some entries. -/
structure Started (names : NamedSearch) (settings : Options) (declared : List Declaration)
    (tables : List GameTable) (known : Options) (world : World) (pathfinder : Pathfinder)
    (options : SearchOptions) (state : SearchState) : Prop where
  depicts : world.Depicts declared
  coherent : world.Coherent tables known
  positive : world.Positive
  fits : names.Fits declared
  speaks : names.Speaks settings world pathfinder options
  accepts : pathfinder.Accepts names.start? options
  begins : pathfinder.Begins names.start? (pathfinder.startingOf options) state

section Started

variable {tables : List GameTable} {known : Options} {world : World} {pathfinder : Pathfinder}
  {options : SearchOptions} {state : SearchState}
  (hstarted : names.Started settings declared tables known world pathfinder options state)
include hstarted

theorem Started.player : pathfinder.players[0]? = some ⟨world, world.resolveSettings settings⟩ := by
  rw [hstarted.speaks.players]
  rfl

theorem Started.linked : ∀ player ∈ pathfinder.players, player.world.Linked := by
  rw [hstarted.speaks.players]
  exact List.forall_mem_singleton.mpr hstarted.coherent.linked

theorem Started.ledger (rounds : Nat) :
    pathfinder.Ledger (pathfinder.startingOf options) options
      ((pathfinder.round options)^[rounds] state) :=
  (hstarted.begins.ledger options).iterate rounds

/-- Everything that exists has a name. -/
theorem Started.exists_name {fact : Fact} (hfact : pathfinder.HasFact fact) :
    ∃ name, world.nameOf? fact = some name := by
  have honly : ∀ {id player}, pathfinder.players[id]? = some player →
      id = 0 ∧ player = ⟨world, world.resolveSettings settings⟩ := by
    rw [hstarted.speaks.players]
    exact World.eq_of_getElem?_singleton
  cases fact with
  | area id area =>
      rcases hfact with ⟨player, hplayer, hlt⟩
      rcases honly hplayer with ⟨rfl, rfl⟩
      rw [← List.length_map (f := Area.name)] at hlt
      exact ⟨_, World.nameOf?_eq_area_iff.mpr ⟨area, rfl, List.getElem?_eq_getElem hlt⟩⟩
  | event id event =>
      rcases hfact with ⟨player, hplayer, hlt⟩
      rcases honly hplayer with ⟨rfl, rfl⟩
      exact ⟨_, World.nameOf?_eq_event_iff.mpr ⟨event, rfl, List.getElem?_eq_getElem hlt⟩⟩
  | location location =>
      rcases location with ⟨id, check⟩
      rcases Pathfinder.hasLocation_iff.mp hfact with ⟨player, hplayer, hlt⟩
      rcases honly hplayer with ⟨rfl, rfl⟩
      rw [← List.length_map (f := Check.name)] at hlt
      exact ⟨_, World.nameOf?_eq_location_iff.mpr ⟨check, rfl, List.getElem?_eq_getElem hlt⟩⟩

theorem Started.exists_slot {location : Location}
    (hlocation : pathfinder.hasLocation location = true) :
    ∃ check slot, location = ⟨0, check⟩ ∧ world.checkName? check = some slot := by
  have hfact : pathfinder.HasFact (.location location) := hlocation
  rcases hstarted.exists_name hfact with ⟨name, hname⟩
  cases name with
  | area name =>
      rcases World.nameOf?_eq_area_iff.mp hname with ⟨_, heq, -⟩
      cases heq
  | event name =>
      rcases World.nameOf?_eq_event_iff.mp hname with ⟨_, heq, -⟩
      cases heq
  | location slot =>
      rcases World.nameOf?_eq_location_iff.mp hname with ⟨check, heq, hslot⟩
      cases heq
      exact ⟨check, slot, rfl, hslot⟩

/-! ## Items -/

/-- The locations that hold an item for the player are as many as the slots where it is
placed. -/
theorem Started.ncard_holding {facts : Set Fact}
    (hexists : ∀ location, Fact.location location ∈ facts →
      pathfinder.hasLocation location = true)
    {item : ItemId} {name : String} (hname : world.itemName? item = some name) :
    (Pathfinder.holding options facts 0 item).ncard =
      {slot | .location slot ∈ world.named facts ∧
        names.placement.find? slot = some name}.ncard := by
  have hcollected : ∀ {check slot}, world.checkName? check = some slot →
      (options.collected? ⟨0, check⟩ = some ⟨0, item⟩ ↔
        names.placement.find? slot = some name) :=
    fun hslot => hstarted.speaks.collected hslot hname
  refine Set.ncard_congr (fun location _ => (world.checkName? location.check).getD "") ?_ ?_ ?_
  · rintro location ⟨hreached, hholds⟩
    rcases hstarted.exists_slot (hexists location hreached) with ⟨check, slot, rfl, hslot⟩
    simp only [hslot, Option.getD_some]
    exact ⟨⟨_, hreached, World.nameOf?_eq_location_iff.mpr ⟨check, rfl, hslot⟩⟩,
      (hcollected hslot).mp hholds⟩
  · rintro location other ⟨hreached, -⟩ ⟨hother, -⟩ hsame
    rcases hstarted.exists_slot (hexists location hreached) with ⟨left, slot, rfl, hleft⟩
    rcases hstarted.exists_slot (hexists other hother) with ⟨right, slot', rfl, hright⟩
    simp only [hleft, hright, Option.getD_some] at hsame
    subst hsame
    rw [World.eq_of_getElem?_eq hstarted.coherent.checks hleft hright]
  · rintro slot ⟨⟨fact, hreached, hfact⟩, hplaced⟩
    rcases World.nameOf?_eq_location_iff.mp hfact with ⟨check, rfl, hslot⟩
    exact ⟨⟨0, check⟩, ⟨hreached, (hcollected hslot).mpr hplaced⟩, by simp [hslot]⟩

/-- The player has the items at the slots found. -/
theorem Started.inventory_count (rounds : Nat) {own : WorldState}
    (hown : ((pathfinder.round options)^[rounds] state).worlds[0]? = some own) {item : ItemId}
    {name : String} (hname : world.itemName? item = some name) :
    own.inventory.count item =
      names.countAfter (world.named ((pathfinder.round options)^[rounds] state).facts) name := by
  have hledger := hstarted.ledger rounds
  rw [Pathfinder.inventory_count_eq hstarted.linked hledger hstarted.player hown, countAfter,
    ← hstarted.ncard_holding (fun location => hledger.hasLocation_of_isReached) hname,
    ← hstarted.speaks.count hname]
  rfl

/-! ## Rounds -/

/-- A search that starts with the items at hand says so by number. -/
theorem Started.numbers_resuming (rounds : Nat) :
    names.Numbers settings
      (names.countAfter (world.named ((pathfinder.round options)^[rounds] state).facts)) world
      pathfinder
      (pathfinder.resuming options ((pathfinder.round options)^[rounds] state)) := by
  have hforesees := @Pathfinder.foresees_resuming pathfinder options
    ((pathfinder.round options)^[rounds] state)
  rcases (hstarted.ledger rounds).worlds hstarted.player with ⟨own, hown, -⟩
  constructor
  case players => exact hstarted.speaks.players
  case events =>
    intro event
    rw [hforesees.events]
    exact hstarted.speaks.events event
  case count =>
    intro item name hname
    rw [hforesees.count hown, hstarted.inventory_count rounds hown hname]
  case collected => exact hforesees.collected
  case forbidden =>
    intro check
    rw [hforesees.forbidden]
    exact hstarted.speaks.forbidden check

theorem Started.exists_areaName {name : String} (hstart : names.IsStart declared name) :
    ∃ area, world.areaName? area = some name :=
  exists_areaName_of_isStart hstarted.depicts hstarted.fits.areas hstart

theorem Started.exists_eventName {name : String} (hname : name ∈ names.events) :
    ∃ event, world.eventName? event = some name :=
  List.mem_iff_getElem?.mp ((hstarted.depicts.events name).mpr (hstarted.fits.events name hname))

/-- A round reaches the least set of names that has those reached before and is closed under the
rules with the items at hand. -/
theorem Started.isLeast_named_round (rounds : Nat) :
    IsLeast {reached | world.named ((pathfinder.round options)^[rounds] state).facts ⊆ reached ∧
        names.RuleClosed settings declared (names.countAfter
          (world.named ((pathfinder.round options)^[rounds] state).facts)) reached}
      (world.named ((pathfinder.round options)^[rounds + 1] state).facts) := by
  have hpositive : ∀ player ∈ pathfinder.players, player.world.Positive := by
    rw [hstarted.speaks.players]
    exact List.forall_mem_singleton.mpr hstarted.positive
  exact isLeast_named hstarted.depicts hstarted.coherent (hstarted.numbers_resuming rounds)
    (fun _ => hstarted.exists_areaName) (fun _ => hstarted.exists_eventName)
    (Pathfinder.isLeast_above_iterate hstarted.linked hpositive hstarted.accepts hstarted.begins
      (Pathfinder.foresees_resuming options _))

/-- A search begins with the start areas and the starting events. -/
theorem Started.named_begin : world.named state.facts = names.beginning declared := by
  rcases hstarted.begins.worlds hstarted.player with ⟨own, hown, hbegun⟩
  apply Set.Subset.antisymm
  · rintro (name | name | name) ⟨fact, hfact, hname⟩
    · rcases World.nameOf?_eq_area_iff.mp hname with ⟨area, rfl, harea⟩
      rcases hfact with ⟨other, hother, hhas⟩
      cases hown.symm.trans hother
      rcases (isStart_iff hstarted.depicts hstarted.coherent).mp ((hbegun.areas area).mp hhas).1
        with ⟨start, hstart, hsame⟩
      cases harea.symm.trans hsame
      exact hstart
    · rcases World.nameOf?_eq_event_iff.mp hname with ⟨event, rfl, hevent⟩
      rcases hfact with ⟨other, hother, hhas⟩
      cases hown.symm.trans hother
      rcases (hstarted.speaks.events event).mp ((hbegun.events event).mp hhas).1 with
        ⟨given, hgiven, hsame⟩
      cases hevent.symm.trans hsame
      exact hgiven
    · rcases World.nameOf?_eq_location_iff.mp hname with ⟨check, rfl, -⟩
      rcases SearchState.isReached_iff.mp hfact with ⟨other, hother, hhas⟩
      cases hown.symm.trans hother
      rw [hbegun.locations] at hhas
      cases hhas
  · rintro (name | name | name) hname
    · rcases hstarted.exists_areaName hname with ⟨area, harea⟩
      exact ⟨_, hstarted.begins.reaches_start hstarted.linked hstarted.player
        ((isStart_iff hstarted.depicts hstarted.coherent).mpr ⟨name, hname, harea⟩),
        World.nameOf?_eq_area_iff.mpr ⟨area, rfl, harea⟩⟩
    · rcases hstarted.exists_eventName hname with ⟨event, hevent⟩
      exact ⟨_, hstarted.begins.reaches_given hstarted.accepts hstarted.player
        ((hstarted.speaks.events event).mpr ⟨name, hname, hevent⟩),
        World.nameOf?_eq_event_iff.mpr ⟨event, rfl, hevent⟩⟩
    · cases hname

/-- After any number of rounds, what is reached by name is the stage. -/
theorem Started.named_iterate (rounds : Nat) :
    world.named ((pathfinder.round options)^[rounds] state).facts =
      names.stage settings declared rounds := by
  induction rounds with
  | zero => exact hstarted.named_begin
  | succ rounds ih =>
      have hleast := hstarted.isLeast_named_round rounds
      rw [ih] at hleast
      exact hleast.isGLB.sInf_eq.symm

/-! ## Spheres -/

/-- A round finds the locations that are reached after it and not before. -/
theorem Started.mem_sphere_iff (rounds : Nat) {location : Location} :
    location ∈ pathfinder.sphere options ((pathfinder.round options)^[rounds] state) ↔
      .location location ∈ ((pathfinder.round options)^[rounds + 1] state).facts ∧
        .location location ∉ ((pathfinder.round options)^[rounds] state).facts := by
  have hbefore := hstarted.ledger rounds
  have hafter := hstarted.ledger (rounds + 1)
  have hnodup := hafter.nodup hstarted.linked
  have hafter_iff := @Pathfinder.Ledger.mem_iff _ _ _ _ hstarted.linked hafter location
  have hbefore_iff := @Pathfinder.Ledger.mem_iff _ _ _ _ hstarted.linked hbefore location
  rw [Function.iterate_succ_apply', Pathfinder.flatten_spheres_round] at hnodup hafter_iff
  rw [List.mem_append] at hafter_iff
  rw [Function.iterate_succ_apply']
  change _ ↔ SearchState.isReached _ _ = true ∧ ¬SearchState.isReached _ _ = true
  rw [← hafter_iff, ← hbefore_iff]
  constructor
  · exact fun hnew => ⟨.inr hnew, fun hold => List.disjoint_of_nodup_append hnodup hold hnew⟩
  · exact fun ⟨hlisted, hnew⟩ => hlisted.resolve_left hnew

/-- The names of what a round finds. -/
theorem Started.slots_sphere (rounds : Nat) :
    world.slots (pathfinder.sphere options ((pathfinder.round options)^[rounds] state)) =
      names.fresh settings declared rounds := by
  ext slot
  change _ ↔ NamedFact.location slot ∈ _ ∧ NamedFact.location slot ∉ _
  rw [← hstarted.named_iterate (rounds + 1), ← hstarted.named_iterate rounds]
  have hmatches : ∀ facts, world.Matches facts (world.named facts) :=
    World.matches_named hstarted.coherent
  constructor
  · rintro ⟨location, hlocation, hslot⟩
    rw [← hmatches _ hslot, ← hmatches _ hslot, ← hstarted.mem_sphere_iff]
    exact hlocation
  · rintro ⟨⟨fact, hfact, hslot⟩, hnew⟩
    rcases World.nameOf?_eq_location_iff.mp hslot with ⟨check, rfl, -⟩
    rw [← hmatches _ hslot] at hnew
    exact ⟨⟨0, check⟩, (hstarted.mem_sphere_iff rounds).mpr ⟨hfact, hnew⟩, hslot⟩

/-- A round that finds something finds something that has a name. -/
theorem Started.fresh_eq_empty_iff (rounds : Nat) :
    names.fresh settings declared rounds = ∅ ↔
      pathfinder.sphere options ((pathfinder.round options)^[rounds] state) = [] := by
  rw [← hstarted.slots_sphere]
  constructor
  · intro hempty
    rw [List.eq_nil_iff_forall_not_mem]
    intro location hlocation
    have hreached := ((hstarted.mem_sphere_iff rounds).mp hlocation).1
    rcases hstarted.exists_slot
      ((hstarted.ledger (rounds + 1)).hasLocation_of_isReached hreached) with
      ⟨check, slot, rfl, hslot⟩
    exact Set.eq_empty_iff_forall_notMem.mp hempty slot
      ⟨_, hlocation, World.nameOf?_eq_location_iff.mpr ⟨check, rfl, hslot⟩⟩
  · intro hnil
    rw [hnil, Set.eq_empty_iff_forall_notMem]
    rintro slot ⟨location, hlocation, -⟩
    cases hlocation

theorem Started.spheres_iterate (rounds : Nat) :
    ((pathfinder.round options)^[rounds] state).spheres.map world.slots =
      names.sphereNames settings declared rounds := by
  induction rounds with
  | zero =>
      rw [Function.iterate_zero_apply, hstarted.begins.spheres]
      rfl
  | succ rounds ih =>
      rw [Function.iterate_succ_apply', Pathfinder.spheres_round, sphereNames]
      by_cases hnil : pathfinder.sphere options ((pathfinder.round options)^[rounds] state) = []
      · rw [if_pos (List.isEmpty_iff.mpr hnil),
          if_pos ((hstarted.fresh_eq_empty_iff rounds).mpr hnil), ih]
      · rw [if_neg (mt List.isEmpty_iff.mp hnil),
          if_neg (mt (hstarted.fresh_eq_empty_iff rounds).mp hnil), List.map_append, ih,
          List.map_singleton, hstarted.slots_sphere]

/-! ## Findings -/

/-- What is found in some rounds depends on the entries alone. -/
theorem Started.findings_iterate (rounds : Nat) :
    world.findings ((pathfinder.round options)^[rounds] state) =
      names.findings settings declared rounds := by
  rw [World.findings, NamedSearch.findings, hstarted.named_iterate, hstarted.spheres_iterate]
  congr 1
  funext name
  rcases (hstarted.ledger rounds).worlds hstarted.player with ⟨own, hown, -⟩
  have hknown := @exists_itemId?_iff world declared hstarted.depicts name
  rw [hown]
  change (world.itemId? name).bind _ = _
  cases hitem : world.itemId? name with
  | none =>
      rw [if_neg (mt hknown.mpr fun ⟨_, hsome⟩ => Option.some_ne_none _ (hsome.symm.trans hitem))]
      rfl
  | some item =>
      have hname : world.itemName? item = some name := NameTable.get?_eq_some_iff.mp hitem
      rw [if_pos (hknown.mp ⟨item, hitem⟩), Option.bind_some,
        hstarted.inventory_count rounds hown hname, hstarted.named_iterate]

end Started

/-- Once a search by name is over, it has found what is found by name in all rounds from some
on. -/
theorem exists_findings_of_run {tables : List GameTable} {known : Options} {world : World}
    (hdepicts : world.Depicts declared) (hcoherent : world.Coherent tables known)
    (hpositive : world.Positive) {search : Search}
    (hrun : names.run settings world = .ok search) :
    ∃ last, ∀ rounds, last ≤ rounds →
      world.findings search.state = names.findings settings declared rounds := by
  have hfits := (exists_run_iff hdepicts hcoherent).mp ⟨search, hrun⟩
  rcases run_eq_ok_iff.mp hrun with ⟨starting, options, hstarting, hoptions, haccepts, hrun⟩
  rcases Pathfinder.run_eq_ok_iff.mp hrun with ⟨-, state, count, hruns, rfl⟩
  have hspeaks := @speaks_of_lookup names settings world _ _ hcoherent _ _ hstarting hoptions
  have hstarted : names.Started settings declared tables known world _ options state :=
    ⟨hdepicts, hcoherent, hpositive, hfits, hspeaks, haccepts,
      Pathfinder.begins_of_begin hruns.begins⟩
  refine ⟨count + 1, fun rounds hle => ?_⟩
  rcases Nat.exists_eq_add_of_le' hle with ⟨more, rfl⟩
  rcases hruns.iterate_eq hstarted.linked hspeaks.stop more with ⟨hworlds, hspheres⟩
  rw [← World.findings_congr world hworlds hspheres, Nat.add_right_comm,
    ← Nat.add_assoc, hstarted.findings_iterate]

end NamedSearch

end SeedLogic
