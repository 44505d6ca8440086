import Mathlib.Algebra.Order.BigOperators.Group.List
import SeedLogic.Proofs.Pathfinder.Settled

/-!
# Rules of reaching

What can be reached, said without a search: by rules that lead from facts to facts.
Areas to start from and starting events are facts; a gate of a reached area whose
requirement holds leads to another area, an event or a location; and a requirement
is about the items at the reached locations (`known`).  When requirements are
positive, what follows from some facts follows from more of them (`Enabled.mono`).
The rules know of no largest number; a search keeps to them while there are not too
many items to be counted (`Countable`).
-/

namespace SeedLogic

/-- Something that can be reached. -/
inductive Fact where
  | area (world : WorldId) (area : AreaId)
  | event (world : WorldId) (event : EventId)
  | location (location : Location)

/-- Is a fact reached in a state? -/
def SearchState.Reaches (state : SearchState) : Fact → Prop
  | .area id area => ∃ world, state.worlds[id]? = some world ∧ world.areas.has area = true
  | .event id event => ∃ world, state.worlds[id]? = some world ∧ world.events.has event = true
  | .location location => state.isReached location = true

/-- Everything reached in a state. -/
def SearchState.facts (state : SearchState) : Set Fact :=
  {fact | state.Reaches fact}

/-- Every requirement of an area is positive. -/
structure Area.Positive (area : Area) : Prop where
  locations : ∀ gate ∈ area.locations, gate.requirement.Positive
  exits : ∀ gate ∈ area.exits, gate.requirement.Positive
  events : ∀ gate ∈ area.events, gate.requirement.Positive
  gossips : ∀ gate ∈ area.gossips, gate.requirement.Positive

instance (area : Area) : Decidable area.Positive :=
  decidable_of_iff
    ((∀ gate ∈ area.locations, gate.requirement.Positive) ∧
      (∀ gate ∈ area.exits, gate.requirement.Positive) ∧
      (∀ gate ∈ area.events, gate.requirement.Positive) ∧
      ∀ gate ∈ area.gossips, gate.requirement.Positive)
    ⟨fun ⟨hlocations, hexits, hevents, hgossips⟩ => ⟨hlocations, hexits, hevents, hgossips⟩,
      fun ⟨hlocations, hexits, hevents, hgossips⟩ => ⟨hlocations, hexits, hevents, hgossips⟩⟩

/-- Every requirement of a world is positive. -/
def World.Positive (world : World) : Prop :=
  ∀ area ∈ world.areas, area.Positive

instance (world : World) : Decidable world.Positive :=
  inferInstanceAs (Decidable (∀ area ∈ world.areas, area.Positive))

/-- The locations where items are placed. -/
def SearchOptions.slots (options : SearchOptions) : List Location :=
  (options.items?.map fun placement => placement.items.entries.map Prod.fst).getD []

/-- There are not too many of any item to be counted. -/
def Reading.Countable (reading : Reading) : Prop :=
  ∀ item, reading.count item < Inventory.modulus

namespace Pathfinder

variable (pathfinder : Pathfinder) (start? : Option (List String)) (options : SearchOptions)

/-! ## Requirements about facts -/

/-- The reached locations that hold an item for a player. -/
def holding (reached : Set Fact) (id : WorldId) (item : ItemId) : Set Location :=
  {location | Fact.location location ∈ reached ∧ options.collected? location = some ⟨id, item⟩}

/-- What requirements are about when some facts are reached: the starting items and
one item for every reached location that holds it. -/
noncomputable def known (reached : Set Fact) (id : WorldId) (player : Player) : Reading where
  count item :=
    (pathfinder.startingOf options).count id item + (holding options reached id item).ncard
  events := {event | Fact.event id event ∈ reached}
  settings := {setting | player.settings.has setting = true}

/-- When some facts are reached, no player has too many of any item to be counted. -/
def Countable (reached : Set Fact) : Prop :=
  ∀ {id : WorldId} {player : Player}, pathfinder.players[id]? = some player →
    (pathfinder.known options reached id player).Countable

/-- A fact follows from some others by one rule. -/
inductive Enabled (reached : Set Fact) : Fact → Prop where
  | start {id : WorldId} {player : Player} {area : AreaId} :
      pathfinder.players[id]? = some player → IsStart start? player.world area →
      Enabled reached (.area id area)
  | given {id : WorldId} {player : Player} {event : EventId} :
      pathfinder.players[id]? = some player →
      event ∈ (pathfinder.startingOf options).eventsOf id → Enabled reached (.event id event)
  | exit {id : WorldId} {player : Player} {entry : Area × AreaId} {gate : Gate} :
      pathfinder.players[id]? = some player → entry ∈ player.world.areas.zipIdx →
      Fact.area id entry.2 ∈ reached → gate ∈ entry.1.exits →
      gate.requirement.Holds (pathfinder.known options reached id player) →
      Enabled reached (.area id gate.target)
  | event {id : WorldId} {player : Player} {entry : Area × AreaId} {gate : Gate} :
      pathfinder.players[id]? = some player → entry ∈ player.world.areas.zipIdx →
      Fact.area id entry.2 ∈ reached → gate ∈ entry.1.events →
      gate.requirement.Holds (pathfinder.known options reached id player) →
      Enabled reached (.event id gate.target)
  | location {id : WorldId} {player : Player} {entry : Area × AreaId} {gate : Gate} :
      pathfinder.players[id]? = some player → entry ∈ player.world.areas.zipIdx →
      Fact.area id entry.2 ∈ reached → gate ∈ entry.1.locations →
      gate.requirement.Holds (pathfinder.known options reached id player) →
      (⟨id, gate.target⟩ : Location) ∉ options.forbidden →
      Enabled reached (.location ⟨id, gate.target⟩)

/-- Every fact that follows is there. -/
def RuleClosed (reached : Set Fact) : Prop :=
  ∀ fact, pathfinder.Enabled start? options reached fact → fact ∈ reached

/-- A series of facts, each of which follows from those before it. -/
inductive Derivation : List Fact → Prop where
  | nil : Derivation []
  | snoc {facts : List Fact} {fact : Fact} : Derivation facts →
      pathfinder.Enabled start? options {earlier | earlier ∈ facts} fact →
      Derivation (facts ++ [fact])

/-- A fact is derived by finitely many steps. -/
def Derivable (fact : Fact) : Prop :=
  ∃ facts, pathfinder.Derivation start? options facts ∧ fact ∈ facts

variable {pathfinder start? options}

/-! ## Monotonicity -/

/-- Items are held where they are placed. -/
theorem holding_subset (reached : Set Fact) (id : WorldId) (item : ItemId) :
    holding options reached id item ⊆ {location | location ∈ options.slots} := by
  rintro location ⟨-, hcollected⟩
  rw [SearchOptions.collected?] at hcollected
  split at hcollected
  case isTrue =>
    rcases Option.bind_eq_some_iff.mp hcollected with ⟨placement, hitems, hplaced⟩
    have hentry := List.mem_map_of_mem (f := Prod.fst) (Dict.mem_of_lookup?_eq_some hplaced)
    simpa [SearchOptions.slots, hitems] using hentry
  case isFalse => cases hcollected

/-- A placement holds an item at finitely many locations. -/
theorem finite_holding (reached : Set Fact) (id : WorldId) (item : ItemId) :
    (holding options reached id item).Finite :=
  (List.finite_toSet options.slots).subset (holding_subset reached id item)

/-- Where nothing is collected, nothing is held. -/
theorem holding_eq_empty (hcollected : ∀ location, options.collected? location = none)
    (reached : Set Fact) (id : WorldId) (item : ItemId) :
    holding options reached id item = ∅ := by
  rw [Set.eq_empty_iff_forall_notMem]
  rintro location ⟨-, hholds⟩
  rw [hcollected] at hholds
  cases hholds

/-- The more is reached, the more is known. -/
theorem known_le_of_subset {fewer more : Set Fact} (hsubset : fewer ⊆ more) (id : WorldId)
    (player : Player) :
    pathfinder.known options fewer id player ≤ pathfinder.known options more id player := by
  constructor
  · intro item
    have hholding : holding options fewer id item ⊆ holding options more id item :=
      fun location hlocation => ⟨hsubset hlocation.1, hlocation.2⟩
    exact Nat.add_le_add_left (Set.ncard_le_ncard hholding (finite_holding more id item)) _
  · exact fun event hevent => hsubset hevent
  · rfl

/-- What can be counted when more is reached can be counted when less is. -/
theorem Countable.mono {fewer more : Set Fact} (hcountable : pathfinder.Countable options more)
    (hsubset : fewer ⊆ more) : pathfinder.Countable options fewer :=
  fun {id player} hplayer item =>
    Nat.lt_of_le_of_lt ((known_le_of_subset hsubset id player).count item) (hcountable hplayer item)

/-- Everything can be counted if there are not too many items to start with and places
where to find more. -/
theorem countable_of_lt (hlt : ∀ {id : WorldId} {player : Player},
      pathfinder.players[id]? = some player →
      (((pathfinder.startingOf options).itemsOf id).map Prod.snd).sum + options.slots.length <
        Inventory.modulus) (reached : Set Fact) :
    pathfinder.Countable options reached := by
  intro id player hplayer item
  have hstart : (pathfinder.startingOf options).count id item ≤
      (((pathfinder.startingOf options).itemsOf id).map Prod.snd).sum :=
    (List.filter_sublist.map Prod.snd).sum_le_sum fun _ _ => Nat.zero_le _
  have hfound : (holding options reached id item).ncard ≤ options.slots.length := by
    have hslots : {location | location ∈ options.slots} =
        (options.slots.toFinset : Set Location) := by
      rw [List.coe_toFinset]
    have hsubset : holding options reached id item ⊆ (options.slots.toFinset : Set Location) :=
      hslots ▸ holding_subset reached id item
    calc (holding options reached id item).ncard
        ≤ (options.slots.toFinset : Set Location).ncard :=
          Set.ncard_le_ncard hsubset (Finset.finite_toSet _)
      _ = options.slots.toFinset.card := Set.ncard_coe_finset _
      _ ≤ options.slots.length := List.toFinset_card_le _
  exact Nat.lt_of_le_of_lt (Nat.add_le_add hstart hfound) (hlt hplayer)

theorem positive_of_entry {player : Player} {id : WorldId}
    (hpositive : ∀ player ∈ pathfinder.players, player.world.Positive)
    (hplayer : pathfinder.players[id]? = some player) {entry : Area × AreaId}
    (hentry : entry ∈ player.world.areas.zipIdx) : entry.1.Positive :=
  hpositive player (List.mem_of_getElem? hplayer) entry.1 (List.fst_mem_of_mem_zipIdx hentry)

/-- Under positive requirements, what follows from some facts follows from more. -/
theorem Enabled.mono (hpositive : ∀ player ∈ pathfinder.players, player.world.Positive)
    {fewer more : Set Fact} (hsubset : fewer ⊆ more) {fact : Fact}
    (henabled : pathfinder.Enabled start? options fewer fact) :
    pathfinder.Enabled start? options more fact := by
  cases henabled with
  | start hplayer hstart => exact .start hplayer hstart
  | given hplayer hgiven => exact .given hplayer hgiven
  | exit hplayer hentry hreached hgate hholds =>
      have hgates := (positive_of_entry hpositive hplayer hentry).exits _ hgate
      exact .exit hplayer hentry (hsubset hreached) hgate
        (hgates.holds_of_le (known_le_of_subset hsubset _ _) hholds)
  | event hplayer hentry hreached hgate hholds =>
      have hgates := (positive_of_entry hpositive hplayer hentry).events _ hgate
      exact .event hplayer hentry (hsubset hreached) hgate
        (hgates.holds_of_le (known_le_of_subset hsubset _ _) hholds)
  | location hplayer hentry hreached hgate hholds hallowed =>
      have hgates := (positive_of_entry hpositive hplayer hentry).locations _ hgate
      exact .location hplayer hentry (hsubset hreached) hgate
        (hgates.holds_of_le (known_le_of_subset hsubset _ _) hholds) hallowed

/-! ## Derivations -/

section Positive

variable (hpositive : ∀ player ∈ pathfinder.players, player.world.Positive)
include hpositive

/-- Two derivations make one. -/
theorem Derivation.append {left right : List Fact}
    (hleft : pathfinder.Derivation start? options left)
    (hright : pathfinder.Derivation start? options right) :
    pathfinder.Derivation start? options (left ++ right) := by
  induction hright with
  | nil => rwa [List.append_nil]
  | @snoc facts fact _ henabled ih =>
      rw [← List.append_assoc]
      refine ih.snoc (henabled.mono hpositive fun earlier hearlier => ?_)
      exact List.mem_append_right left hearlier

/-- Finitely many derivable facts are derived together. -/
theorem exists_derivation_of_forall {facts : List Fact}
    (hfacts : ∀ fact ∈ facts, pathfinder.Derivable start? options fact) :
    ∃ derived, pathfinder.Derivation start? options derived ∧ facts ⊆ derived := by
  induction facts with
  | nil => exact ⟨[], .nil, List.nil_subset _⟩
  | cons fact facts ih =>
      rcases List.forall_mem_cons.mp hfacts with ⟨hfirst, hrest⟩
      rcases hfirst with ⟨left, hleft, hmem⟩
      rcases ih hrest with ⟨right, hright, hsubset⟩
      refine ⟨left ++ right, hleft.append hpositive hright, List.cons_subset.mpr ⟨?_, ?_⟩⟩
      · exact List.mem_append_left right hmem
      · exact List.subset_append_of_subset_right left hsubset

/-- Derived facts are in every set that has what follows from it. -/
theorem Derivation.subset {reached : Set Fact}
    (hclosed : pathfinder.RuleClosed start? options reached) {facts : List Fact}
    (hderived : pathfinder.Derivation start? options facts) :
    ∀ fact ∈ facts, fact ∈ reached := by
  induction hderived with
  | nil => exact fun fact hfact => absurd hfact List.not_mem_nil
  | snoc _ henabled ih =>
      intro fact hfact
      rcases List.mem_append.mp hfact with hearlier | hlast
      · exact ih fact hearlier
      · rw [List.mem_singleton.mp hlast]
        exact hclosed _ (henabled.mono hpositive ih)

/-- If only finitely many facts are derivable, they have what follows from them. -/
theorem ruleClosed_derivable
    (hfinite : {fact | pathfinder.Derivable start? options fact}.Finite) :
    pathfinder.RuleClosed start? options {fact | pathfinder.Derivable start? options fact} := by
  intro fact henabled
  obtain ⟨facts, hfacts⟩ : ∃ facts : List Fact, ∀ fact, fact ∈ facts ↔
      pathfinder.Derivable start? options fact :=
    ⟨hfinite.toFinset.toList, fun fact => by simp⟩
  obtain ⟨derived, hderived, hsubset⟩ :=
    exists_derivation_of_forall hpositive fun fact hfact => (hfacts fact).mp hfact
  have hall : {fact | pathfinder.Derivable start? options fact} ⊆ {fact | fact ∈ derived} :=
    fun fact hfact => hsubset ((hfacts fact).mpr hfact)
  exact ⟨derived ++ [fact], hderived.snoc (henabled.mono hpositive hall), by simp⟩

end Positive

end Pathfinder

end SeedLogic
