import SeedLogic.Proofs.Pathfinder.Closing

/-!
# Searching a world for locations

A search marks locations and changes nothing else of a state.  It lists every new
location of the world once (`Found.count`) and for a reason (`Found.source`), and it
misses none that is open and not forbidden (`search_complete`).
-/

namespace SeedLogic

namespace Player

/-- What a search has done to a state on its way. -/
structure Found (player : Player) (id : WorldId) (forbidden : List Location) (state : WorldState)
    (found : WorldState × List Location) : Prop where
  frame : found.1 = { state with locations := found.1.locations }
  locations : state.locations ≤ found.1.locations
  count : ∀ check < state.locations.size,
    (state.locations.has check).toNat + found.2.count ⟨id, check⟩ =
      (found.1.locations.has check).toNat
  source : ∀ location ∈ found.2, location.world = id ∧ location ∉ forbidden ∧
    ∃ entry ∈ player.world.areas.zipIdx, state.areas.has entry.2 = true ∧
      ∃ gate ∈ entry.1.locations, gate.target = location.check ∧
        state.opens player.settings gate = true

variable {player : Player} {id : WorldId} {forbidden : List Location} {state : WorldState}
  {found : WorldState × List Location}

theorem Found.opens_eq (hfound : player.Found id forbidden state found) (gate : Gate) :
    found.1.opens player.settings gate = state.opens player.settings gate := by
  rw [hfound.frame]
  rfl

theorem Found.areas_eq (hfound : player.Found id forbidden state found) :
    found.1.areas = state.areas := by
  rw [hfound.frame]

theorem Found.le (hfound : player.Found id forbidden state found) : state ≤ found.1 := by
  have hrefl := state.le_refl
  rw [hfound.frame]
  exact ⟨hrefl.areas, hfound.locations, hrefl.gossips, hrefl.events⟩

/-- What is found while more is forbidden is found while less is. -/
theorem Found.mono {more : List Location} (hfound : player.Found id more state found)
    (hsubset : forbidden ⊆ more) : player.Found id forbidden state found := by
  refine ⟨hfound.frame, hfound.locations, hfound.count, fun location hmem => ?_⟩
  rcases hfound.source location hmem with ⟨hworld, hallowed, hgate⟩
  exact ⟨hworld, fun hforbidden => hallowed (hsubset hforbidden), hgate⟩

/-- A location that is listed is new. -/
theorem Found.has_of_mem (hfound : player.Found id forbidden state found) {location : Location}
    (hmem : location ∈ found.2) (hlt : location.check < state.locations.size) :
    state.locations.has location.check = false ∧
      found.1.locations.has location.check = true := by
  have hcount := hfound.count location.check hlt
  have hpositive : 0 < found.2.count ⟨id, location.check⟩ := by
    rw [← (hfound.source location hmem).1]
    exact List.count_pos_iff.mpr hmem
  have hbound := Bool.toNat_le (found.1.locations.has location.check)
  have hold : (state.locations.has location.check).toNat = 0 := by omega
  have hnew : (found.1.locations.has location.check).toNat = 1 := by omega
  exact ⟨Bool.toNat_eq_zero.mp hold, Bool.toNat_eq_one.mp hnew⟩

theorem found_nil (player : Player) (id : WorldId) (forbidden : List Location)
    (state : WorldState) : player.Found id forbidden state (state, []) :=
  ⟨rfl, Flags.le_refl _, by simp, by simp⟩

/-- Reaching one location more. -/
theorem Found.takeLocation (hfound : player.Found id forbidden state found)
    {entry : Area × AreaId} (hentry : entry ∈ player.world.areas.zipIdx)
    (hreached : state.areas.has entry.2 = true) {gate : Gate} (hgate : gate ∈ entry.1.locations) :
    player.Found id forbidden state (takeLocation player.settings id forbidden found gate) := by
  simp only [Player.takeLocation, Bool.or_eq_true, List.contains_iff_mem]
  split
  case isTrue => exact hfound
  case isFalse hnew =>
    rcases not_or.mp hnew with ⟨hunset, hallowed⟩
    split
    case isFalse => exact hfound
    case isTrue hopens =>
      rw [hfound.opens_eq] at hopens
      constructor
      · rw [hfound.frame]
      · exact Flags.le_trans hfound.locations (Flags.le_mark _ _)
      · intro check hlt
        have hcount := hfound.count check hlt
        rw [List.count_append, Flags.has_mark, ← hfound.locations.size]
        by_cases hcheck : gate.target = check
        · subst hcheck
          rw [Bool.eq_false_iff.mpr hunset] at hcount ⊢
          simp_all
        · have hne : (⟨id, gate.target⟩ : Location) ≠ ⟨id, check⟩ :=
            fun heq => hcheck (congrArg Location.check heq)
          have hoff : (gate.target == check) = false := by simpa using hcheck
          rw [hoff, Bool.false_and, Bool.or_false, List.count_singleton, beq_false_of_ne hne]
          simpa using hcount
      · intro location hmem
        rcases List.mem_append.mp hmem with hold | hlast
        · exact hfound.source location hold
        · rw [List.mem_singleton.mp hlast]
          exact ⟨rfl, hallowed, entry, hentry, hreached, gate, hgate, rfl, hopens⟩

theorem Found.searchArea (hfound : player.Found id forbidden state found)
    {entry : Area × AreaId} (hentry : entry ∈ player.world.areas.zipIdx) :
    player.Found id forbidden state (searchArea player.settings id forbidden found entry) := by
  unfold Player.searchArea
  split
  case isFalse => exact hfound
  case isTrue hreached =>
    rw [hfound.areas_eq] at hreached
    have hgates : ∀ gates : List Gate, gates ⊆ entry.1.locations →
        ∀ found, player.Found id forbidden state found →
          player.Found id forbidden state
            (gates.foldl (Player.takeLocation player.settings id forbidden) found) := by
      intro gates hgates
      induction gates with
      | nil => exact fun found hfound => hfound
      | cons gate gates ih =>
          intro found hfound
          rcases List.cons_subset.mp hgates with ⟨hgate, hrest⟩
          exact ih hrest _ (hfound.takeLocation hentry hreached hgate)
    exact hgates _ (List.Subset.refl _) _ hfound

/-- What a search does to a state. -/
theorem found_search (player : Player) (id : WorldId) (forbidden : List Location)
    (state : WorldState) :
    player.Found id forbidden state (player.search id forbidden state) := by
  have hentries : ∀ entries : List (Area × AreaId), entries ⊆ player.world.areas.zipIdx →
      ∀ found, player.Found id forbidden state found →
        player.Found id forbidden state
          (entries.foldl (Player.searchArea player.settings id forbidden) found) := by
    intro entries hentries
    induction entries with
    | nil => exact fun found hfound => hfound
    | cons entry entries ih =>
        intro found hfound
        rcases List.cons_subset.mp hentries with ⟨hentry, hrest⟩
        exact ih hrest _ (hfound.searchArea hentry)
  exact hentries _ (List.Subset.refl _) _ (player.found_nil id forbidden state)

/-! ## Completeness -/

theorem grows_takeLocation (settings : Flags) (id : WorldId) (forbidden : List Location)
    (found : WorldState × List Location) (gate : Gate) :
    found.1.Grows (takeLocation settings id forbidden found gate).1 := by
  have hrefl := found.1.le_refl
  simp only [takeLocation]
  split
  · exact found.1.grows_refl
  · split
    · exact ⟨⟨hrefl.areas, Flags.le_mark _ _, hrefl.gossips, hrefl.events⟩, rfl⟩
    · exact found.1.grows_refl

theorem grows_foldl_takeLocation (settings : Flags) (id : WorldId) (forbidden : List Location)
    (gates : List Gate) (found : WorldState × List Location) :
    found.1.Grows (gates.foldl (takeLocation settings id forbidden) found).1 := by
  induction gates generalizing found with
  | nil => exact found.1.grows_refl
  | cons gate gates ih =>
      exact (grows_takeLocation settings id forbidden found gate).trans (ih _)

theorem grows_searchArea (settings : Flags) (id : WorldId) (forbidden : List Location)
    (found : WorldState × List Location) (entry : Area × AreaId) :
    found.1.Grows (searchArea settings id forbidden found entry).1 := by
  unfold searchArea
  split
  · exact grows_foldl_takeLocation settings id forbidden _ found
  · exact found.1.grows_refl

/-- A search reaches every location of a reached area that is open and not forbidden. -/
theorem search_complete {entry : Area × AreaId} (hentry : entry ∈ player.world.areas.zipIdx)
    (hreached : state.areas.has entry.2 = true) {gate : Gate} (hgate : gate ∈ entry.1.locations)
    (hopens : state.opens player.settings gate = true)
    (hallowed : (⟨id, gate.target⟩ : Location) ∉ forbidden)
    (hlt : gate.target < state.locations.size) :
    (player.search id forbidden state).1.locations.has gate.target = true := by
  have hsearch := player.found_search id forbidden state
  obtain ⟨arrived, harrived, hvisit⟩ := exists_visit Prod.fst
    (fun found entry _ => grows_searchArea player.settings id forbidden found entry) hentry
    (state, [])
  have harea : arrived.1.areas.has entry.2 = true := harrived.le.areas.has hreached
  rw [searchArea, if_pos harea] at hvisit
  obtain ⟨passed, hpassed, htaken⟩ := exists_visit Prod.fst
    (fun found gate _ => grows_takeLocation player.settings id forbidden found gate) hgate arrived
  have hbefore := harrived.trans hpassed
  have hafter := htaken.trans hvisit
  have hopen : passed.1.opens player.settings gate = true := by
    rw [← hopens]
    refine opens_of_between hbefore
      ((grows_takeLocation player.settings id forbidden passed gate).trans hafter) ?_ _ _
    change (player.search id forbidden state).1.events = state.events
    rw [hsearch.frame]
  apply hafter.le.locations.has
  simp only [takeLocation, Bool.or_eq_true, List.contains_iff_mem]
  by_cases hset : passed.1.locations.has gate.target = true
  · rw [if_pos (.inl hset)]
    exact hset
  · rw [if_neg (not_or.mpr ⟨hset, hallowed⟩), if_pos hopen]
    exact Flags.has_mark_self (hbefore.le.locations.size ▸ hlt)

end Player

end SeedLogic
