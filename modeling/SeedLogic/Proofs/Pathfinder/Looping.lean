import SeedLogic.Proofs.Pathfinder.Settled

/-!
# Loops without a limit

The sweeps of a world and the rounds of a search are defined with a number of turns that
they may take at most.  A `Loop` has no such limit: it takes its step until a step need
not be followed by another.  Both definitions are loops in this sense, so that the limit
never cuts them short (`Player.loop_close`, `Pathfinder.loop_of_runs`).
-/

namespace SeedLogic

/-- A loop that takes `count` steps from one state to another.  Every step is followed by
the next unless it `stops` the loop, which is a matter of the state before and after it. -/
inductive Loop {σ : Type} (step : σ → σ) (stops : σ → σ → Prop) : σ → Nat → σ → Prop where
  | last {state : σ} : stops state (step state) → Loop step stops state 1 (step state)
  | more {state finish : σ} {count : Nat} : ¬stops state (step state) →
      Loop step stops (step state) count finish → Loop step stops state (count + 1) finish

namespace Loop

variable {σ : Type} {step : σ → σ} {stops : σ → σ → Prop} {start finish other : σ}
  {count number : Nat}

/-- A loop ends in one way. -/
theorem unique (hleft : Loop step stops start count finish)
    (hright : Loop step stops start number other) : count = number ∧ finish = other := by
  induction hleft generalizing number with
  | last hstops =>
      cases hright with
      | last => exact ⟨rfl, rfl⟩
      | more hgoes => exact absurd hstops hgoes
  | more hgoes _ ih =>
      cases hright with
      | last hstops => exact absurd hstops hgoes
      | more _ hrest =>
          obtain ⟨rfl, rfl⟩ := ih hrest
          exact ⟨rfl, rfl⟩

/-- A loop that stops after `turns` steps and one more, and not before. -/
theorem of_iterate {turns : Nat} (hstops : stops (step^[turns] start) (step^[turns + 1] start))
    (hgoes : ∀ earlier < turns, ¬stops (step^[earlier] start) (step^[earlier + 1] start)) :
    Loop step stops start (turns + 1) (step^[turns + 1] start) := by
  induction turns generalizing start with
  | zero => exact .last hstops
  | succ turns ih =>
      have hrest := ih hstops fun earlier hlt => hgoes (earlier + 1) (Nat.succ_lt_succ hlt)
      exact .more (hgoes 0 (Nat.zero_lt_succ turns)) hrest

end Loop

/-! ## Sweeps -/

/-- The same areas are reached and the same events obtained. -/
def WorldState.SameReach (before after : WorldState) : Prop :=
  after.areas = before.areas ∧ after.events = before.events

theorem WorldState.sameReach_iff {before after : WorldState} (hle : before ≤ after) :
    before.SameReach after ↔ after.reach = before.reach := by
  constructor
  · rintro ⟨hareas, hevents⟩
    rw [reach, reach, hareas, hevents]
  · exact eq_of_reach_eq hle

namespace Player

/-- Sweeping with enough turns at hand ends by itself. -/
theorem loop_sweepUntilStable (player : Player) (gossips : Bool) {fuel : Nat}
    {state : WorldState} (hfuel : state.areas.size + state.events.size < state.reach + fuel) :
    ∃ count, count ≤ fuel ∧ Loop (player.sweep gossips) WorldState.SameReach state count
      (player.sweepUntilStable gossips fuel state) := by
  induction fuel generalizing state with
  | zero =>
      have hareas := state.areas.count_le_size
      have hevents := state.events.count_le_size
      simp only [WorldState.reach] at hfuel
      omega
  | succ fuel ih =>
      have hle := (player.moves_sweep gossips state).le
      simp only [sweepUntilStable]
      split
      case isTrue hstable =>
        exact ⟨1, Nat.succ_le_succ (Nat.zero_le fuel),
          .last ((WorldState.sameReach_iff hle).mpr hstable)⟩
      case isFalse hchanged =>
        have hgrows := WorldState.reach_le_of_le hle
        have hareas := hle.areas.size
        have hevents := hle.events.size
        have hleft : (player.sweep gossips state).areas.size +
            (player.sweep gossips state).events.size <
              (player.sweep gossips state).reach + fuel := by
          omega
        obtain ⟨count, hcount, hloop⟩ := ih hleft
        exact ⟨count + 1, Nat.succ_le_succ hcount,
          .more (mt (WorldState.sameReach_iff hle).mp hchanged) hloop⟩

/-- Closing a world sweeps it until a sweep reaches no new area and obtains no new event,
which happens after one sweep for each area and each event, and one more, at the latest. -/
theorem loop_close (player : Player) (gossips : Bool) (state : WorldState) :
    ∃ count, count ≤ state.areas.size + state.events.size + 1 ∧
      Loop (player.sweep gossips) WorldState.SameReach state count
        (player.close gossips state) := by
  apply player.loop_sweepUntilStable gossips
  omega

end Player

/-! ## Rounds -/

/-- Worlds that count to the same one by one do so in all. -/
theorem WorldState.total_eq_of_forall₂ {measure : WorldState → Nat}
    {before after : List WorldState}
    (hworlds : List.Forall₂ (fun before after => measure after = measure before) before after) :
    total measure after = total measure before := by
  induction hworlds with
  | nil => rfl
  | cons hhead _ ih => rw [total, total, hhead, ih]

namespace Pathfinder

variable {pathfinder : Pathfinder} {start? : Option (List String)} {starting : StartingItems}
  {options : SearchOptions} {state : SearchState}

/-- A round has changed nothing: no world has a new area or a new event, and there is no
new sphere. -/
def Idle (before after : SearchState) : Prop :=
  after.spheres = before.spheres ∧
    List.Forall₂ WorldState.SameReach before.worlds after.worlds

/-- A round ends the search: the goal is met and the search is to stop there, or the round
has changed nothing. -/
def Stops (options : SearchOptions) (before after : SearchState) : Prop :=
  after.goal = true ∧ options.stopAtGoal = true ∨ Idle before after

/-- The spheres stay the same when none is found. -/
theorem spheres_round_eq_self_iff :
    (pathfinder.round options state).spheres = state.spheres ↔
      pathfinder.sphere options state = [] := by
  rw [spheres_round]
  by_cases hnil : pathfinder.sphere options state = []
  · simp [hnil]
  · rw [if_neg (mt List.isEmpty_iff.mp hnil)]
    simp [hnil]

/-- Where no location is found, the reached locations of every world stay the same. -/
theorem locations_eq_of_sphere_eq_nil (hledger : pathfinder.Ledger starting options state)
    (hnil : pathfinder.sphere options state = []) {id : WorldId} {before after : WorldState}
    (hbefore : state.worlds[id]? = some before)
    (hafter : (pathfinder.round options state).worlds[id]? = some after) :
    after.locations = before.locations := by
  rcases hledger.exists_books hbefore with ⟨player, hplayer, hbooks⟩
  have hlater := hledger.round.books hplayer hafter
  have hlisted : (pathfinder.round options state).spheres.flatten = state.spheres.flatten := by
    rw [flatten_spheres_round, hnil, List.append_nil]
  have hsame : ∀ check, after.locations.has check = before.locations.has check := by
    intro check
    by_cases hlt : check < player.world.checks.length
    · have hcount := hlater.once check hlt
      rw [hlisted, hbooks.once check hlt] at hcount
      rw [Bool.eq_iff_iff, ← Bool.toNat_eq_one, ← Bool.toNat_eq_one, hcount]
    · have hbound : ∀ {flags : Flags}, flags.size = player.world.checks.length →
          flags.has check = false := by
        intro flags hsize
        apply Bool.eq_false_iff.mpr
        intro hhas
        exact hlt (hsize ▸ Flags.lt_size_of_has hhas)
      rw [hbound hlater.locations, hbound hbooks.locations]
  have hsize : after.locations.size = before.locations.size :=
    hlater.locations.trans hbooks.locations.symm
  apply Flags.le_antisymm
  · exact ⟨hsize, fun {check} hhas => hsame check ▸ hhas⟩
  · exact ⟨hsize.symm, fun {check} hhas => (hsame check).symm ▸ hhas⟩

/-- A round without progress is one that changes nothing. -/
theorem idle_iff (hlinked : ∀ player ∈ pathfinder.players, player.world.Linked)
    (hledger : pathfinder.Ledger starting options state) :
    Idle state (pathfinder.round options state) ↔
      (pathfinder.round options state).progress = state.progress := by
  constructor
  · rintro ⟨hspheres, hworlds⟩
    have hnil := spheres_round_eq_self_iff.mp hspheres
    apply WorldState.total_eq_of_forall₂
    apply List.forall₂_iff_get.mpr
    constructor
    · exact hworlds.length_eq
    · intro id hid hid'
      obtain ⟨hareas, hevents⟩ := (List.forall₂_iff_get.mp hworlds).2 id hid hid'
      have hlocations := locations_eq_of_sphere_eq_nil hledger hnil
        (List.getElem?_eq_getElem hid) (List.getElem?_eq_getElem hid')
      simp only [List.get_eq_getElem] at hareas hevents ⊢
      simp only [WorldState.progress, WorldState.reach, hareas, hevents, hlocations]
  · intro hprogress
    constructor
    · exact spheres_round_eq_self_iff.mpr (sphere_eq_nil hlinked hledger hprogress)
    · apply (SearchState.forall₂_eq_of_total_progress_eq
        (le_round options state hledger.length).worlds hprogress).imp
      rintro before after ⟨hareas, hevents, -⟩
      exact ⟨hareas, hevents⟩

theorem stops_iff (hlinked : ∀ player ∈ pathfinder.players, player.world.Linked)
    (hledger : pathfinder.Ledger starting options state) :
    Stops options state (pathfinder.round options state) ↔ pathfinder.Halts options state := by
  rw [Stops, Halts, idle_iff hlinked hledger]

/-- A search goes through its rounds until one of them stops it. -/
theorem loop_of_runs (hlinked : ∀ player ∈ pathfinder.players, player.world.Linked)
    {count : Nat} (hruns : pathfinder.Runs start? options state count) :
    Loop (pathfinder.round options) (Stops options) state (count + 1)
      ((pathfinder.round options)^[count + 1] state) := by
  have hledger := (begins_of_begin hruns.begins).ledger options
  have hiff : ∀ turns, Stops options ((pathfinder.round options)^[turns] state)
        ((pathfinder.round options)^[turns + 1] state) ↔
      pathfinder.Halts options ((pathfinder.round options)^[turns] state) := by
    intro turns
    rw [Function.iterate_succ_apply']
    exact stops_iff hlinked (hledger.iterate turns)
  apply Loop.of_iterate
  · exact (hiff count).mpr hruns.halts
  · intro earlier hlt
    exact mt (hiff earlier).mp (hruns.earlier earlier hlt)

end Pathfinder

end SeedLogic
