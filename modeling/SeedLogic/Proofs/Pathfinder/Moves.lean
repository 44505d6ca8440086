import Mathlib.Logic.Relation
import SeedLogic.Pathfinder.Sweep
import SeedLogic.Proofs.Inventory.Growth
import SeedLogic.Proofs.Requirement.Truth

/-!
# Moves of a sweep

Whatever a sweep does to the state of a world is a series of moves: one event
obtained, one exit taken or one hint stone reached, from an area that is reached
and by a requirement that holds.  A move only adds to a state and leaves locations
and items alone.
-/

namespace SeedLogic

open Relation (ReflTransGen)

/-! ## Growth of states -/

namespace WorldState

/-- Nothing that has been reached is lost.  Items are another matter, since their counts
may wrap around. -/
protected structure Le (before after : WorldState) : Prop where
  areas : before.areas ≤ after.areas
  locations : before.locations ≤ after.locations
  gossips : before.gossips ≤ after.gossips
  events : before.events ≤ after.events

instance : LE WorldState :=
  ⟨WorldState.Le⟩

theorem le_refl (state : WorldState) : state ≤ state :=
  ⟨Flags.le_refl _, Flags.le_refl _, Flags.le_refl _, Flags.le_refl _⟩

theorem le_trans {first second third : WorldState} (hearly : first ≤ second)
    (hlate : second ≤ third) : first ≤ third :=
  ⟨Flags.le_trans hearly.areas hlate.areas, Flags.le_trans hearly.locations hlate.locations,
    Flags.le_trans hearly.gossips hlate.gossips, Flags.le_trans hearly.events hlate.events⟩

/-- Nothing that has been reached is lost, and the items stay the same. -/
structure Grows (before after : WorldState) : Prop where
  le : before ≤ after
  inventory : after.inventory = before.inventory

theorem grows_refl (state : WorldState) : state.Grows state :=
  ⟨state.le_refl, rfl⟩

theorem Grows.trans {first second third : WorldState} (hearly : first.Grows second)
    (hlate : second.Grows third) : first.Grows third :=
  ⟨le_trans hearly.le hlate.le, hlate.inventory.trans hearly.inventory⟩

theorem reach_le_of_le {before after : WorldState} (hle : before ≤ after) :
    before.reach ≤ after.reach :=
  Nat.add_le_add (Flags.count_le_of_le hle.areas) (Flags.count_le_of_le hle.events)

/-- A state that grows without reaching more has the same areas and events. -/
theorem eq_of_reach_eq {before after : WorldState} (hle : before ≤ after)
    (hreach : after.reach = before.reach) :
    after.areas = before.areas ∧ after.events = before.events := by
  have hareas := Flags.count_le_of_le hle.areas
  have hevents := Flags.count_le_of_le hle.events
  simp only [reach] at hreach
  constructor
  · exact (Flags.eq_of_le_of_count_eq hle.areas (by omega)).symm
  · exact (Flags.eq_of_le_of_count_eq hle.events (by omega)).symm

/-- What requirements are about in a state. -/
def reading (state : WorldState) (settings : Flags) : Reading :=
  (state.situation settings).reading

theorem opens_iff {state : WorldState} {settings : Flags} {gate : Gate} :
    state.opens settings gate = true ↔ gate.requirement.Holds (state.reading settings) :=
  (Requirement.holds_reading_iff _ _).symm

/-- States with the same items and events open the same gates. -/
theorem opens_congr {left right : WorldState} (settings : Flags) (gate : Gate)
    (hevents : left.events = right.events)
    (hcount : ∀ item, left.inventory.count item = right.inventory.count item) :
    left.opens settings gate = right.opens settings gate := by
  have hreading : left.reading settings = right.reading settings := by
    apply Reading.ext
    · funext item
      exact hcount item
    · simp [reading, Situation.reading, situation, hevents]
    · rfl
  rw [Bool.eq_iff_iff, opens_iff, opens_iff, hreading]

end WorldState

namespace Player

/-! ## Moves -/

/-- One addition to the state of a world by a sweep. -/
inductive Move (player : Player) : WorldState → WorldState → Prop where
  | event {state : WorldState} {entry : Area × AreaId} {gate : Gate} :
      entry ∈ player.world.areas.zipIdx → state.areas.has entry.2 = true →
      gate ∈ entry.1.events → state.opens player.settings gate = true →
      Move player state { state with events := state.events.mark gate.target }
  | exit {state : WorldState} {entry : Area × AreaId} {gate : Gate} :
      entry ∈ player.world.areas.zipIdx → state.areas.has entry.2 = true →
      gate ∈ entry.1.exits → state.opens player.settings gate = true →
      Move player state { state with areas := state.areas.mark gate.target }
  | gossip {state : WorldState} {entry : Area × AreaId} {gate : Gate} :
      entry ∈ player.world.areas.zipIdx → state.areas.has entry.2 = true →
      gate ∈ entry.1.gossips → state.opens player.settings gate = true →
      Move player state { state with gossips := state.gossips.mark gate.target }

/-- Any number of moves. -/
abbrev Moves (player : Player) : WorldState → WorldState → Prop :=
  ReflTransGen player.Move

variable {player : Player}

theorem Move.le {before after : WorldState} (hmove : player.Move before after) :
    before ≤ after := by
  have hrefl := before.le_refl
  cases hmove with
  | event => exact ⟨hrefl.areas, hrefl.locations, hrefl.gossips, Flags.le_mark _ _⟩
  | exit => exact ⟨Flags.le_mark _ _, hrefl.locations, hrefl.gossips, hrefl.events⟩
  | gossip => exact ⟨hrefl.areas, hrefl.locations, Flags.le_mark _ _, hrefl.events⟩

theorem Moves.le {before after : WorldState} (hmoves : player.Moves before after) :
    before ≤ after := by
  induction hmoves with
  | refl => exact before.le_refl
  | tail _ hmove ih => exact WorldState.le_trans ih hmove.le

/-- Moves leave locations and items alone. -/
theorem Moves.frame {before after : WorldState} (hmoves : player.Moves before after) :
    after.locations = before.locations ∧ after.inventory = before.inventory := by
  induction hmoves with
  | refl => exact ⟨rfl, rfl⟩
  | tail _ hmove ih => cases hmove <;> exact ih

theorem Moves.grows {before after : WorldState} (hmoves : player.Moves before after) :
    before.Grows after :=
  ⟨hmoves.le, hmoves.frame.2⟩

/-- What every move preserves, any number of moves preserves. -/
theorem Moves.preserve {Holds : WorldState → Prop}
    (hmove : ∀ {before after}, player.Move before after → Holds before → Holds after)
    {before after : WorldState} (hmoves : player.Moves before after) (hbefore : Holds before) :
    Holds after := by
  induction hmoves with
  | refl => exact hbefore
  | tail _ hlast ih => exact hmove hlast ih

/-! ## Sweeps move -/

/-- Going through gates makes moves if each gate does while the area stays reached. -/
theorem foldl_moves {take : WorldState → Gate → WorldState} {gates : List Gate} {id : AreaId}
    (htake : ∀ state, state.areas.has id = true → ∀ gate ∈ gates,
      player.Moves state (take state gate))
    {state : WorldState} (hreached : state.areas.has id = true) :
    player.Moves state (gates.foldl take state) := by
  induction gates generalizing state with
  | nil => exact .refl
  | cons gate gates ih =>
      have hfirst := htake state hreached gate List.mem_cons_self
      have hrest : ∀ state, state.areas.has id = true → ∀ gate ∈ gates,
          player.Moves state (take state gate) :=
        fun state hstate gate hgate => htake state hstate gate (List.mem_cons_of_mem _ hgate)
      exact hfirst.trans (ih hrest (hfirst.le.areas.has hreached))

section Visit

variable {entry : Area × AreaId} (hentry : entry ∈ player.world.areas.zipIdx)
include hentry

theorem moves_events {state : WorldState} (hreached : state.areas.has entry.2 = true) :
    player.Moves state (entry.1.events.foldl (takeEvent player.settings) state) := by
  refine foldl_moves (fun state hstate gate hgate => ?_) hreached
  unfold takeEvent
  split
  case isTrue hopens => exact .single (.event hentry hstate hgate hopens)
  case isFalse => exact .refl

theorem moves_exits {state : WorldState} (hreached : state.areas.has entry.2 = true) :
    player.Moves state (entry.1.exits.foldl (takeExit player.settings) state) := by
  refine foldl_moves (fun state hstate gate hgate => ?_) hreached
  unfold takeExit
  split
  case isTrue hopens => exact .single (.exit hentry hstate hgate hopens)
  case isFalse => exact .refl

theorem moves_gossips {state : WorldState} (hreached : state.areas.has entry.2 = true) :
    player.Moves state (entry.1.gossips.foldl (takeGossip player.settings) state) := by
  refine foldl_moves (fun state hstate gate hgate => ?_) hreached
  unfold takeGossip
  split
  case isTrue hopens => exact .single (.gossip hentry hstate hgate hopens)
  case isFalse => exact .refl

theorem moves_visitArea (gossips : Bool) (state : WorldState) :
    player.Moves state (visitArea player.settings gossips state entry) := by
  simp only [visitArea]
  split
  case isFalse => exact .refl
  case isTrue hreached =>
    have hevents := moves_events hentry hreached
    have hexits := moves_exits hentry (hevents.le.areas.has hreached)
    have hgossips := moves_gossips hentry (hexits.le.areas.has (hevents.le.areas.has hreached))
    split
    · exact hevents.trans (hexits.trans hgossips)
    · exact hevents.trans hexits

end Visit

/-- A sweep is a series of moves. -/
theorem moves_sweep (player : Player) (gossips : Bool) (state : WorldState) :
    player.Moves state (player.sweep gossips state) := by
  have hvisits : ∀ (entries : List (Area × AreaId)), entries ⊆ player.world.areas.zipIdx →
      ∀ state, player.Moves state
        (entries.foldl (visitArea player.settings gossips) state) := by
    intro entries hentries
    induction entries with
    | nil => exact fun state => .refl
    | cons entry entries ih =>
        intro state
        rcases List.cons_subset.mp hentries with ⟨hentry, hrest⟩
        exact (moves_visitArea hentry gossips state).trans (ih hrest _)
  exact hvisits _ (List.Subset.refl _) state

/-- Closing a world is a series of moves. -/
theorem moves_sweepUntilStable (player : Player) (gossips : Bool) (fuel : Nat)
    (state : WorldState) : player.Moves state (player.sweepUntilStable gossips fuel state) := by
  induction fuel generalizing state with
  | zero => exact .refl
  | succ fuel ih =>
      have hsweep := player.moves_sweep gossips state
      simp only [sweepUntilStable]
      split
      · exact hsweep
      · exact hsweep.trans (ih _)

theorem moves_close (player : Player) (gossips : Bool) (state : WorldState) :
    player.Moves state (player.close gossips state) :=
  player.moves_sweepUntilStable gossips _ state

end Player

end SeedLogic
