import SeedLogic.Proofs.Pathfinder.Moves

/-!
# Closing a world

A sweep that reaches no new area and no new event has found every gate of a reached
area either shut or already taken, since nothing it looked at changed on the way.
Closing a world sweeps until that happens (`exists_stable_sweep`), so that what it
leaves is closed under exits, events and hint stones (`closed_close`).
-/

namespace SeedLogic

namespace Player

variable {player : Player}

/-! ## Passing through states -/

/-- A walk that only adds to a state comes by every entry. -/
theorem exists_visit {σ α : Type} (view : σ → WorldState) {step : σ → α → σ} {entries : List α}
    (hstep : ∀ state, ∀ entry ∈ entries, (view state).Grows (view (step state entry))) {entry : α}
    (hentry : entry ∈ entries) (state : σ) :
    ∃ passed, (view state).Grows (view passed) ∧
      (view (step passed entry)).Grows (view (entries.foldl step state)) := by
  have hfold : ∀ (part : List α), part ⊆ entries →
      ∀ state, (view state).Grows (view (part.foldl step state)) := by
    intro part hpart
    induction part with
    | nil => exact fun state => (view state).grows_refl
    | cons first part ih =>
        intro state
        rcases List.cons_subset.mp hpart with ⟨hfirst, hrest⟩
        exact (hstep state first hfirst).trans (ih hrest _)
  rcases List.append_of_mem hentry with ⟨before, after, rfl⟩
  refine ⟨before.foldl step state, hfold before (by simp) state, ?_⟩
  rw [List.foldl_append, List.foldl_cons]
  exact hfold after (fun other hother => by simp [hother]) _

theorem grows_takeEvent (settings : Flags) (state : WorldState) (gate : Gate) :
    state.Grows (takeEvent settings state gate) := by
  have hrefl := state.le_refl
  unfold takeEvent
  split
  · exact ⟨⟨hrefl.areas, hrefl.locations, hrefl.gossips, Flags.le_mark _ _⟩, rfl⟩
  · exact state.grows_refl

theorem grows_takeExit (settings : Flags) (state : WorldState) (gate : Gate) :
    state.Grows (takeExit settings state gate) := by
  have hrefl := state.le_refl
  unfold takeExit
  split
  · exact ⟨⟨Flags.le_mark _ _, hrefl.locations, hrefl.gossips, hrefl.events⟩, rfl⟩
  · exact state.grows_refl

theorem grows_takeGossip (settings : Flags) (state : WorldState) (gate : Gate) :
    state.Grows (takeGossip settings state gate) := by
  have hrefl := state.le_refl
  unfold takeGossip
  split
  · exact ⟨⟨hrefl.areas, hrefl.locations, Flags.le_mark _ _, hrefl.events⟩, rfl⟩
  · exact state.grows_refl

/-- All along a stretch that changes no event and no item, the same gates are open. -/
theorem opens_of_between {before passed after : WorldState} (hearly : before.Grows passed)
    (hlate : passed.Grows after) (hevents : after.events = before.events) (settings : Flags)
    (gate : Gate) : passed.opens settings gate = before.opens settings gate := by
  apply WorldState.opens_congr
  · exact Flags.le_antisymm (hevents ▸ hlate.le.events) hearly.le.events
  · intro item
    rw [hearly.inventory]

/-! ## Sweeps that change nothing -/

/-- The stretches of a visit to a reached area, in their order. -/
theorem exists_stretches {entry : Area × AreaId} (hentry : entry ∈ player.world.areas.zipIdx)
    (gossips : Bool) {state : WorldState} (hreached : state.areas.has entry.2 = true) :
    ∃ arrived, state.Grows arrived ∧
      ∃ obtained, entry.1.events.foldl (takeEvent player.settings) arrived = obtained ∧
        arrived.Grows obtained ∧ obtained.Grows (player.sweep gossips state) ∧
      ∃ left, entry.1.exits.foldl (takeExit player.settings) obtained = left ∧
        obtained.Grows left ∧ left.Grows (player.sweep gossips state) ∧
      (gossips = true → (entry.1.gossips.foldl (takeGossip player.settings) left).Grows
        (player.sweep gossips state)) := by
  obtain ⟨arrived, harrived, hvisit⟩ := exists_visit id
    (fun state entry hentry => (moves_visitArea hentry gossips state).grows) hentry state
  change state.Grows arrived at harrived
  change (visitArea player.settings gossips arrived entry).Grows
    (player.sweep gossips state) at hvisit
  have harea := harrived.le.areas.has hreached
  have hobtained := (moves_events hentry harea).grows
  have hleft := (moves_exits hentry (hobtained.le.areas.has harea)).grows
  have hread := (moves_gossips hentry (hleft.le.areas.has (hobtained.le.areas.has harea))).grows
  simp only [visitArea, if_pos harea] at hvisit
  have hend : (entry.1.exits.foldl (takeExit player.settings)
      (entry.1.events.foldl (takeEvent player.settings) arrived)).Grows
        (player.sweep gossips state) := by
    refine WorldState.Grows.trans ?_ hvisit
    split
    · exact hread
    · exact WorldState.grows_refl _
  refine ⟨arrived, harrived, _, rfl, hobtained, hleft.trans hend, _, rfl, hleft, hend,
    fun hgossips => ?_⟩
  rw [if_pos hgossips] at hvisit
  exact hvisit

section Stable

variable {gossips : Bool} {state : WorldState}
  (hevents : (player.sweep gossips state).events = state.events)

include hevents in
/-- When a sweep obtains no event, a gate that is open before it is open when the
sweep comes by. -/
theorem exists_taken {take : WorldState → Gate → WorldState}
    (htake : ∀ (state : WorldState) gate, state.Grows (take state gate)) {gates : List Gate}
    {gate : Gate} (hgate : gate ∈ gates) (hopens : state.opens player.settings gate = true)
    {start : WorldState} (hearly : state.Grows start)
    (hlate : (gates.foldl take start).Grows (player.sweep gossips state)) :
    ∃ passed, state ≤ passed ∧ passed.opens player.settings gate = true ∧
      take passed gate ≤ player.sweep gossips state := by
  obtain ⟨passed, hpassed, htaken⟩ :=
    exists_visit id (fun state gate _ => htake state gate) hgate start
  have hbefore := hearly.trans hpassed
  have hafter := htaken.trans hlate
  refine ⟨passed, hbefore.le, ?_, hafter.le⟩
  rw [← hopens]
  exact opens_of_between hbefore ((htake passed gate).trans hafter) hevents player.settings gate

variable {entry : Area × AreaId} (hentry : entry ∈ player.world.areas.zipIdx)
  (hreached : state.areas.has entry.2 = true) {gate : Gate}
  (hopens : state.opens player.settings gate = true)
include hevents hentry hreached hopens

theorem sweep_events (hgate : gate ∈ entry.1.events) (hlt : gate.target < state.events.size) :
    (player.sweep gossips state).events.has gate.target = true := by
  rcases exists_stretches hentry gossips hreached with
    ⟨arrived, harrived, obtained, rfl, -, hobtained, -⟩
  rcases exists_taken hevents (grows_takeEvent player.settings) hgate hopens harrived hobtained
    with ⟨passed, hpassed, hopen, htaken⟩
  apply htaken.events.has
  rw [takeEvent, if_pos hopen]
  exact Flags.has_mark_self (hpassed.events.size ▸ hlt)

theorem sweep_exits (hgate : gate ∈ entry.1.exits) (hlt : gate.target < state.areas.size) :
    (player.sweep gossips state).areas.has gate.target = true := by
  rcases exists_stretches hentry gossips hreached with
    ⟨arrived, harrived, obtained, -, hobtained, -, left, rfl, -, hleft, -⟩
  obtain ⟨passed, hpassed, hopen, htaken⟩ :=
    exists_taken hevents (grows_takeExit player.settings) hgate hopens
      (harrived.trans hobtained) hleft
  apply htaken.areas.has
  rw [takeExit, if_pos hopen]
  exact Flags.has_mark_self (hpassed.areas.size ▸ hlt)

theorem sweep_gossips (hgossips : gossips = true) (hgate : gate ∈ entry.1.gossips)
    (hlt : gate.target < state.gossips.size) :
    (player.sweep gossips state).gossips.has gate.target = true := by
  rcases exists_stretches hentry gossips hreached with
    ⟨arrived, harrived, obtained, -, hobtained, -, left, -, hleft, -, hread⟩
  obtain ⟨passed, hpassed, hopen, htaken⟩ :=
    exists_taken hevents (grows_takeGossip player.settings) hgate hopens
      (harrived.trans (hobtained.trans hleft)) (hread hgossips)
  apply htaken.gossips.has
  rw [takeGossip, if_pos hopen]
  exact Flags.has_mark_self (hpassed.gossips.size ▸ hlt)

end Stable

/-! ## Closed worlds -/

/-- Sweeping as often as there are areas and events comes to a sweep that reaches
none of them. -/
theorem exists_stable_sweep (player : Player) (gossips : Bool) {fuel : Nat} {state : WorldState}
    (hfuel : state.areas.size + state.events.size < state.reach + fuel) :
    ∃ before, player.Moves state before ∧
      player.sweepUntilStable gossips fuel state = player.sweep gossips before ∧
      (player.sweep gossips before).reach = before.reach := by
  induction fuel generalizing state with
  | zero =>
      have hareas := state.areas.count_le_size
      have hevents := state.events.count_le_size
      simp only [WorldState.reach] at hfuel
      omega
  | succ fuel ih =>
      simp only [sweepUntilStable]
      split
      case isTrue hstable => exact ⟨state, .refl, rfl, hstable⟩
      case isFalse hchanged =>
        have hsweep := player.moves_sweep gossips state
        have hgrows := WorldState.reach_le_of_le hsweep.le
        have hareas := hsweep.le.areas.size
        have hevents := hsweep.le.events.size
        have hrest : (player.sweep gossips state).areas.size +
            (player.sweep gossips state).events.size <
              (player.sweep gossips state).reach + fuel := by omega
        rcases ih hrest with ⟨before, hmoves, hresult, hstable⟩
        exact ⟨before, hsweep.trans hmoves, hresult, hstable⟩

/-- Nothing that can be reached from the areas of a world is missing: neither an
area nor an event, nor, if asked for, a hint stone. -/
structure Closed (player : Player) (gossips : Bool) (state : WorldState) : Prop where
  events : ∀ {entry}, entry ∈ player.world.areas.zipIdx → state.areas.has entry.2 = true →
    ∀ {gate}, gate ∈ entry.1.events → state.opens player.settings gate = true →
      gate.target < state.events.size → state.events.has gate.target = true
  exits : ∀ {entry}, entry ∈ player.world.areas.zipIdx → state.areas.has entry.2 = true →
    ∀ {gate}, gate ∈ entry.1.exits → state.opens player.settings gate = true →
      gate.target < state.areas.size → state.areas.has gate.target = true
  gossips : gossips = true →
    ∀ {entry}, entry ∈ player.world.areas.zipIdx → state.areas.has entry.2 = true →
    ∀ {gate}, gate ∈ entry.1.gossips → state.opens player.settings gate = true →
      gate.target < state.gossips.size → state.gossips.has gate.target = true

/-- A sweep that reaches no area and no event leaves a closed world. -/
theorem closed_sweep {gossips : Bool} {state : WorldState}
    (hstable : (player.sweep gossips state).reach = state.reach) :
    player.Closed gossips (player.sweep gossips state) := by
  have hmoves := player.moves_sweep gossips state
  rcases WorldState.eq_of_reach_eq hmoves.le hstable with ⟨hareas, hevents⟩
  have hopens : ∀ gate, (player.sweep gossips state).opens player.settings gate =
      state.opens player.settings gate := fun gate =>
    WorldState.opens_congr player.settings gate hevents fun item => by rw [hmoves.frame.2]
  constructor
  · intro entry hentry hreached gate hgate hopen hlt
    rw [hareas] at hreached
    exact sweep_events hevents hentry hreached (hopens gate ▸ hopen) hgate (hevents ▸ hlt)
  · intro entry hentry hreached gate hgate hopen hlt
    rw [hareas] at hreached
    exact sweep_exits hevents hentry hreached (hopens gate ▸ hopen) hgate (hareas ▸ hlt)
  · intro hgossips entry hentry hreached gate hgate hopen hlt
    rw [hareas] at hreached
    exact sweep_gossips hevents hentry hreached (hopens gate ▸ hopen) hgossips hgate
      (hmoves.le.gossips.size ▸ hlt)

/-- A closed world is closed. -/
theorem closed_close (player : Player) (gossips : Bool) (state : WorldState) :
    player.Closed gossips (player.close gossips state) := by
  have hfuel : state.areas.size + state.events.size <
      state.reach + (state.areas.size + state.events.size + 1) := by omega
  rcases player.exists_stable_sweep gossips hfuel with ⟨before, -, hresult, hstable⟩
  rw [close, hresult]
  exact closed_sweep hstable

end Player

end SeedLogic
