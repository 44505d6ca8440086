import SeedLogic.Proofs.Pathfinder.Lockstep
import SeedLogic.Proofs.Pathfinder.Settled

/-!
# Standstill

A world in which nothing more can be reached is left as it is by closing and searching it
(`Closed.close_eq`, `Settled.search_eq`).  So once a search has come to its end, it may as
well go on: further rounds change nothing (`iterate_of_progress_eq`).
-/

namespace SeedLogic

/-- A walk on which no step changes the state does not change it. -/
theorem foldl_eq_self {σ α : Type} {step : σ → α → σ} {entries : List α} {state : σ}
    (hstep : ∀ entry ∈ entries, step state entry = state) : entries.foldl step state = state := by
  induction entries with
  | nil => rfl
  | cons entry entries ih =>
      rw [List.foldl_cons, hstep entry List.mem_cons_self]
      exact ih fun other hother => hstep other (List.mem_cons_of_mem _ hother)

namespace Player

variable {player : Player} {gossips : Bool} {options : SearchOptions} {id : WorldId}
  {state : WorldState}

/-! ## Worlds -/

theorem Closed.visitArea_eq (hclosed : player.Closed gossips state) {entry : Area × AreaId}
    (hentry : entry ∈ player.world.areas.zipIdx) :
    visitArea player.settings gossips state entry = state := by
  by_cases hreached : state.areas.has entry.2 = true
  · have hevents : entry.1.events.foldl (takeEvent player.settings) state = state := by
      apply foldl_eq_self
      intro gate hgate
      unfold takeEvent
      split
      case isTrue hopens =>
        rw [Flags.mark_eq_self (hclosed.events hentry hreached hgate hopens)]
      case isFalse => rfl
    have hexits : entry.1.exits.foldl (takeExit player.settings) state = state := by
      apply foldl_eq_self
      intro gate hgate
      unfold takeExit
      split
      case isTrue hopens =>
        rw [Flags.mark_eq_self (hclosed.exits hentry hreached hgate hopens)]
      case isFalse => rfl
    have hgossips : gossips = true →
        entry.1.gossips.foldl (takeGossip player.settings) state = state := by
      intro hasked
      apply foldl_eq_self
      intro gate hgate
      unfold takeGossip
      split
      case isTrue hopens =>
        rw [Flags.mark_eq_self (hclosed.gossips hasked hentry hreached hgate hopens)]
      case isFalse => rfl
    simp only [visitArea, if_pos hreached, hevents, hexits]
    split
    case isTrue hasked => exact hgossips hasked
    case isFalse => rfl
  · simp only [visitArea, if_neg hreached]

/-- A closed world stays as it is when it is closed. -/
theorem Closed.close_eq (hclosed : player.Closed gossips state) :
    player.close gossips state = state := by
  have hsweep : player.sweep gossips state = state :=
    foldl_eq_self fun entry hentry => hclosed.visitArea_eq hentry
  simp only [close, sweepUntilStable, hsweep, if_true]

/-- Nothing is found in a world in which nothing more can be reached. -/
theorem Settled.search_eq (hsettled : player.Settled options id state)
    (hlinked : player.world.Linked) (hsize : state.locations.size = player.world.checks.length) :
    player.search id options.forbidden state = (state, []) := by
  apply foldl_eq_self
  intro entry hentry
  unfold searchArea
  split
  case isFalse => rfl
  case isTrue hreached =>
    apply foldl_eq_self
    intro gate hgate
    simp only [takeLocation, Bool.or_eq_true, List.contains_iff_mem]
    have hlt : gate.target < state.locations.size :=
      hsize ▸ hlinked.locations entry.1 (List.fst_mem_of_mem_zipIdx hentry) gate hgate
    by_cases hopens : state.opens player.settings gate = true
    · by_cases hforbidden : (⟨id, gate.target⟩ : Location) ∈ options.forbidden
      · rw [if_pos (.inr hforbidden)]
      · rw [if_pos (.inl (hsettled.locations hentry hreached hgate hopens hforbidden hlt))]
    · rw [if_neg hopens, ite_self]

end Player

namespace Pathfinder

variable {pathfinder : Pathfinder} {starting : StartingItems} {options : SearchOptions}
  {state : SearchState}

/-! ## Searches -/

section Linked

variable (hlinked : ∀ player ∈ pathfinder.players, player.world.Linked)
include hlinked

/-- When nothing more can be reached, a round changes no world. -/
theorem worlds_round_of_exhausted (hledger : pathfinder.Ledger starting options state)
    (hexhausted : pathfinder.Exhausted options state) :
    (pathfinder.round options state).worlds = state.worlds := by
  have hsphere := sphere_eq_nil_of_exhausted hlinked hledger hexhausted
  have hround : (pathfinder.round options state).worlds =
      (pathfinder.findings options state).map Prod.fst := by
    change deliverAll options _ (pathfinder.sphere options state) = _
    rw [hsphere, deliverAll_eq_foldl]
    rfl
  rw [hround]
  apply List.ext_getElem?
  intro id
  by_cases hid : id < pathfinder.players.length
  · have hplayer := List.getElem?_eq_getElem hid
    rcases hexhausted hplayer with ⟨world, hworld, hsettled⟩
    have hsize := (hledger.books hplayer hworld).locations
    have hfound := hsettled.search_eq (hlinked _ (List.getElem_mem hid)) hsize
    have hentry : (pathfinder.findings options state)[id]? = some (world, []) :=
      getElem?_findings_eq_some.mpr
        ⟨_, world, hplayer, hworld, by rw [hsettled.closed.close_eq, hfound]⟩
    rw [List.getElem?_map, hentry, hworld]
    rfl
  · have hlength : (pathfinder.findings options state).length = pathfinder.players.length := by
      simp [findings, search, close, hledger.length]
    rw [List.getElem?_eq_none (by rw [List.length_map, hlength]; omega),
      List.getElem?_eq_none (by rw [hledger.length]; omega)]

/-- A search that has made no progress in a round may go on for as many rounds as it likes. -/
theorem iterate_of_progress_eq (hledger : pathfinder.Ledger starting options state)
    (hprogress : (pathfinder.round options state).progress = state.progress) (more : Nat) :
    ((pathfinder.round options)^[more + 1] state).worlds =
        (pathfinder.round options state).worlds ∧
      ((pathfinder.round options)^[more + 1] state).spheres =
        (pathfinder.round options state).spheres ∧
      pathfinder.Exhausted options ((pathfinder.round options)^[more + 1] state) := by
  induction more with
  | zero => exact ⟨rfl, rfl, exhausted_round hlinked hledger hprogress⟩
  | succ more ih =>
      rcases ih with ⟨hworlds, hspheres, hexhausted⟩
      have hlater := hledger.iterate (more + 1)
      have hsame := worlds_round_of_exhausted hlinked hlater hexhausted
      rw [Function.iterate_succ_apply']
      constructor
      · rw [hsame, hworlds]
      constructor
      · rw [spheres_round, sphere_eq_nil_of_exhausted hlinked hlater hexhausted]
        exact hspheres
      · intro id player hplayer
        rcases hexhausted hplayer with ⟨world, hworld, hsettled⟩
        exact ⟨world, hsame ▸ hworld, hsettled⟩

end Linked

end Pathfinder

end SeedLogic
