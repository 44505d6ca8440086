import SeedLogic.Proofs.Pathfinder.Stopping

/-!
# Searches in lockstep

Only the locations that are reached matter to a search: another one that forbids
more, but none of these, and that finds the same items at them, goes through the
same states (`run_eq_of_agree`).
-/

namespace SeedLogic

/-- Another search treats some locations alike, and forbids no less. -/
structure SearchOptions.AgreeOn (locations : List Location) (options other : SearchOptions) :
    Prop where
  gossips : other.gossips = options.gossips
  stop : other.stopAtGoal = options.stopAtGoal
  forbidden : options.forbidden ⊆ other.forbidden
  allowed : ∀ location ∈ locations, location ∉ other.forbidden
  collected : ∀ location ∈ locations, other.collected? location = options.collected? location

theorem SearchOptions.AgreeOn.mono {fewer more : List Location} {options other : SearchOptions}
    (hagree : options.AgreeOn more other) (hsubset : fewer ⊆ more) :
    options.AgreeOn fewer other :=
  ⟨hagree.gossips, hagree.stop, hagree.forbidden,
    fun location hlocation => hagree.allowed location (hsubset hlocation),
    fun location hlocation => hagree.collected location (hsubset hlocation)⟩

namespace Player

variable {player : Player} {id : WorldId} {forbidden more : List Location}

/-! ## Finding the same locations -/

theorem prefix_takeLocation (settings : Flags) (id : WorldId) (forbidden : List Location)
    (found : WorldState × List Location) (gate : Gate) :
    found.2 <+: (takeLocation settings id forbidden found gate).2 := by
  simp only [takeLocation]
  split
  · exact List.prefix_refl _
  · split
    · exact List.prefix_append _ _
    · exact List.prefix_refl _

theorem prefix_foldl_takeLocation (settings : Flags) (id : WorldId) (forbidden : List Location)
    (gates : List Gate) (found : WorldState × List Location) :
    found.2 <+: (gates.foldl (takeLocation settings id forbidden) found).2 := by
  induction gates generalizing found with
  | nil => exact List.prefix_refl _
  | cons gate gates ih =>
      exact (prefix_takeLocation settings id forbidden found gate).trans (ih _)

theorem prefix_searchArea (settings : Flags) (id : WorldId) (forbidden : List Location)
    (found : WorldState × List Location) (entry : Area × AreaId) :
    found.2 <+: (searchArea settings id forbidden found entry).2 := by
  unfold searchArea
  split
  · exact prefix_foldl_takeLocation settings id forbidden _ found
  · exact List.prefix_refl _

theorem prefix_foldl_searchArea (settings : Flags) (id : WorldId) (forbidden : List Location)
    (entries : List (Area × AreaId)) (found : WorldState × List Location) :
    found.2 <+: (entries.foldl (searchArea settings id forbidden) found).2 := by
  induction entries generalizing found with
  | nil => exact List.prefix_refl _
  | cons entry entries ih =>
      exact (prefix_searchArea settings id forbidden found entry).trans (ih _)

section More

variable (hsubset : forbidden ⊆ more)
include hsubset

/-- Forbidding more changes nothing when the location that is taken stays allowed. -/
theorem takeLocation_eq_of_allowed (settings : Flags) (found : WorldState × List Location)
    (gate : Gate)
    (hallowed : ∀ location ∈ (takeLocation settings id forbidden found gate).2,
      location ∉ more) :
    takeLocation settings id more found gate = takeLocation settings id forbidden found gate := by
  simp only [takeLocation, Bool.or_eq_true, List.contains_iff_mem] at hallowed ⊢
  by_cases hhas : found.1.locations.has gate.target = true
  · rw [if_pos (.inl hhas), if_pos (.inl hhas)]
  · by_cases hforbidden : (⟨id, gate.target⟩ : Location) ∈ forbidden
    · rw [if_pos (.inr (hsubset hforbidden)), if_pos (.inr hforbidden)]
    · rw [if_neg (not_or.mpr ⟨hhas, hforbidden⟩)] at hallowed ⊢
      by_cases hopens : found.1.opens settings gate = true
      · rw [if_pos hopens] at hallowed ⊢
        have hlast := hallowed ⟨id, gate.target⟩ (List.mem_append_right _ List.mem_cons_self)
        rw [if_neg (not_or.mpr ⟨hhas, hlast⟩)]
      · rw [if_neg hopens, ite_self]

theorem foldl_takeLocation_eq_of_allowed (settings : Flags) (gates : List Gate)
    (found : WorldState × List Location)
    (hallowed : ∀ location ∈ (gates.foldl (takeLocation settings id forbidden) found).2,
      location ∉ more) :
    gates.foldl (takeLocation settings id more) found =
      gates.foldl (takeLocation settings id forbidden) found := by
  induction gates generalizing found with
  | nil => rfl
  | cons gate gates ih =>
      have hrest := prefix_foldl_takeLocation settings id forbidden gates
        (takeLocation settings id forbidden found gate)
      rw [List.foldl_cons, List.foldl_cons,
        takeLocation_eq_of_allowed hsubset settings found gate
          fun location hlocation => hallowed location (hrest.subset hlocation)]
      exact ih _ hallowed

theorem searchArea_eq_of_allowed (settings : Flags) (found : WorldState × List Location)
    (entry : Area × AreaId)
    (hallowed : ∀ location ∈ (searchArea settings id forbidden found entry).2,
      location ∉ more) :
    searchArea settings id more found entry = searchArea settings id forbidden found entry := by
  unfold searchArea at hallowed ⊢
  split
  case isTrue hreached =>
    rw [if_pos hreached] at hallowed
    exact foldl_takeLocation_eq_of_allowed hsubset settings _ found hallowed
  case isFalse => rfl

/-- Forbidding more locations that a search does not find changes nothing. -/
theorem search_eq_of_allowed (state : WorldState)
    (hallowed : ∀ location ∈ (player.search id forbidden state).2, location ∉ more) :
    player.search id more state = player.search id forbidden state := by
  have hentries : ∀ (entries : List (Area × AreaId)) (found : WorldState × List Location),
      (∀ location ∈ (entries.foldl (searchArea player.settings id forbidden) found).2,
        location ∉ more) →
      entries.foldl (searchArea player.settings id more) found =
        entries.foldl (searchArea player.settings id forbidden) found := by
    intro entries
    induction entries with
    | nil => exact fun found _ => rfl
    | cons entry entries ih =>
        intro found hfound
        have hrest := prefix_foldl_searchArea player.settings id forbidden entries
          (searchArea player.settings id forbidden found entry)
        rw [List.foldl_cons, List.foldl_cons,
          searchArea_eq_of_allowed hsubset player.settings found entry
            fun location hlocation => hfound location (hrest.subset hlocation)]
        exact ih _ hfound
  exact hentries _ _ hallowed

end More

end Player

namespace Pathfinder

variable {pathfinder : Pathfinder} {start? : Option (List String)}
  {options other : SearchOptions} {state : SearchState}

/-! ## Receiving the same items -/

/-- Give the item that is collected at a location. -/
def hand (options : SearchOptions) (worlds : List WorldState) (location : Location) :
    List WorldState :=
  match options.collected? location with
  | some placed => worlds.modify placed.player fun state => state.collect placed.item
  | none => worlds

theorem deliverAll_eq_foldl (worlds : List WorldState) (sphere : List Location) :
    deliverAll options worlds sphere = sphere.foldl (hand options) worlds := by
  have hnone : (∀ location, options.collected? location = none) →
      sphere.foldl (hand options) worlds = worlds := by
    intro hnone
    induction sphere with
    | nil => rfl
    | cons location sphere ih =>
        rw [List.foldl_cons, hand, hnone]
        exact ih
  cases hrecursive : options.recursive with
  | false =>
      rw [hnone fun location => by simp [SearchOptions.collected?, hrecursive]]
      simp [deliverAll, hrecursive]
  | true =>
      cases hitems : options.items? with
      | none =>
          rw [hnone fun location => by simp [SearchOptions.collected?, hitems]]
          simp [deliverAll, hrecursive, hitems]
      | some placement =>
          have hhand : hand options = deliver placement := by
            funext worlds location
            unfold hand SearchOptions.collected?
            rw [hrecursive, hitems]
            rfl
          simp [deliverAll, hrecursive, hitems, hhand]

theorem deliverAll_eq_of_collected {sphere : List Location}
    (hcollected : ∀ location ∈ sphere,
      other.collected? location = options.collected? location) (worlds : List WorldState) :
    deliverAll other worlds sphere = deliverAll options worlds sphere := by
  rw [deliverAll_eq_foldl, deliverAll_eq_foldl]
  apply List.foldl_ext
  intro worlds location hlocation
  rw [hand, hand, hcollected location hlocation]

/-! ## Going through the same states -/

/-- Searches that agree on what is found in a state find the same. -/
theorem findings_eq_of_agree (hagree : options.AgreeOn (pathfinder.sphere options state) other) :
    pathfinder.findings other state = pathfinder.findings options state := by
  have hsearch : ∀ {id : WorldId} {player : Player} {world : WorldState},
      pathfinder.players[id]? = some player → state.worlds[id]? = some world →
      player.search id other.forbidden (player.close other.gossips world) =
        player.search id options.forbidden (player.close options.gossips world) := by
    intro id player world hplayer hworld
    rw [hagree.gossips]
    apply Player.search_eq_of_allowed hagree.forbidden
    intro location hlocation
    apply hagree.allowed
    rw [mem_sphere]
    obtain rfl := ((player.found_search id options.forbidden _).source location hlocation).1
    exact ⟨player, world, hplayer, hworld, hlocation⟩
  apply List.ext_getElem?
  intro id
  apply Option.ext
  intro found
  rw [getElem?_findings_eq_some, getElem?_findings_eq_some]
  constructor
  · rintro ⟨player, world, hplayer, hworld, rfl⟩
    exact ⟨player, world, hplayer, hworld, (hsearch hplayer hworld).symm⟩
  · rintro ⟨player, world, hplayer, hworld, rfl⟩
    exact ⟨player, world, hplayer, hworld, hsearch hplayer hworld⟩

/-- A round that finds only locations on which searches agree is a round of both. -/
theorem round_eq_of_agree (hagree : options.AgreeOn (pathfinder.sphere options state) other) :
    pathfinder.round other state = pathfinder.round options state := by
  have hfindings := findings_eq_of_agree hagree
  have hdeliver := deliverAll_eq_of_collected hagree.collected
    ((pathfinder.findings options state).map Prod.fst)
  simp only [sphere] at hdeliver
  simp only [findings] at hfindings hdeliver
  simp only [round, hfindings, hdeliver]

theorem iterate_eq_of_agree {count : Nat}
    (hagree : options.AgreeOn ((pathfinder.round options)^[count] state).spheres.flatten other) :
    (pathfinder.round other)^[count] state = (pathfinder.round options)^[count] state := by
  induction count with
  | zero => rfl
  | succ count ih =>
      rw [Function.iterate_succ_apply', flatten_spheres_round] at hagree
      rw [Function.iterate_succ_apply', Function.iterate_succ_apply',
        ih (hagree.mono (List.subset_append_left _ _)),
        round_eq_of_agree (hagree.mono (List.subset_append_right _ _))]

/-- Searches that agree on what is reached halt after the same rounds. -/
theorem Runs.of_agree {count : Nat} (hruns : pathfinder.Runs start? options state count)
    (hagree : options.AgreeOn
      ((pathfinder.round options)^[count + 1] state).spheres.flatten other)
    (hstarting : pathfinder.startingOf other = pathfinder.startingOf options) :
    pathfinder.Runs start? other state count := by
  have hprefix : ∀ {early}, early ≤ count + 1 →
      (pathfinder.round other)^[early] state = (pathfinder.round options)^[early] state := by
    intro early hle
    apply iterate_eq_of_agree
    apply hagree.mono
    have hgrowth := le_iterate options (begins_of_begin hruns.begins).length hle
    exact hgrowth.spheres.flatten.subset
  have hhalts : ∀ {early}, early ≤ count →
      (pathfinder.Halts other ((pathfinder.round other)^[early] state) ↔
        pathfinder.Halts options ((pathfinder.round options)^[early] state)) := by
    intro early hle
    rw [Halts, Halts, ← Function.iterate_succ_apply' (pathfinder.round other),
      ← Function.iterate_succ_apply' (pathfinder.round options), hprefix (Nat.succ_le_succ hle),
      hprefix (Nat.le_succ_of_le hle), hagree.stop]
  constructor
  · rw [hstarting]
    exact hruns.begins
  · exact (hhalts (Nat.le_refl count)).mpr hruns.halts
  · intro earlier hlt
    rw [hhalts (Nat.le_of_lt hlt)]
    exact hruns.earlier earlier hlt

/-- Only the locations that are reached matter: a valid search that agrees on them has
the same outcome. -/
theorem run_eq_of_agree {search : Search} (hrun : pathfinder.run start? options = .ok search)
    (hvalid : pathfinder.validate other = .ok ())
    (hstarting : pathfinder.startingOf other = pathfinder.startingOf options)
    (hagree : options.AgreeOn search.state.spheres.flatten other) :
    pathfinder.run start? other = .ok search := by
  rcases run_eq_ok_iff.mp hrun with ⟨-, state, count, hruns, rfl⟩
  have hsame := iterate_eq_of_agree hagree
  exact run_eq_ok_iff.mpr ⟨hvalid, state, count, hruns.of_agree hagree hstarting, by rw [hsame]⟩

/-! ## Only reached locations matter -/

section Reached

variable {search : Search} (hrun : pathfinder.run start? options = .ok search)
  (hvalid : pathfinder.validate other = .ok ())
  (hrest : other = { options with items? := other.items?, forbidden := other.forbidden })
  (hplaced : ∀ location, search.state.isReached location = true →
    other.placed? location = options.placed? location)
  (hforbidden : options.forbidden ⊆ other.forbidden)
  (hallowed : ∀ location, search.state.isReached location = true → location ∉ other.forbidden)
include hrun hvalid hrest hplaced hforbidden hallowed

/-- Valid options that place the same at the reached locations, and forbid more but none of
these, agree on everything that is listed: a location that is listed without being reached
does not exist, and valid options do not speak of it. -/
theorem agreeOn_of_reached : options.AgreeOn search.state.spheres.flatten other := by
  have hledger := ledger_of_run hrun
  have hunplaced : ∀ {location : Location}, pathfinder.hasLocation location ≠ true →
      ∀ {options : SearchOptions}, pathfinder.validate options = .ok () →
        options.placed? location = none := by
    intro location hfar options hvalid
    rw [Option.eq_none_iff_forall_ne_some]
    exact fun placed hplaced => hfar (exists_of_placed? hvalid hplaced).1
  constructor
  · rw [hrest]
  · rw [hrest]
  · exact hforbidden
  · intro location hmem hother
    have hlocation := (validate_eq_ok_iff.mp hvalid).2.1 location hother
    exact hallowed location (hledger.isReached_of_mem hlocation hmem) hother
  · intro location hmem
    have hrecursive : other.recursive = options.recursive := by rw [hrest]
    rw [SearchOptions.collected?_eq, SearchOptions.collected?_eq, hrecursive]
    congr 1
    by_cases hlocation : pathfinder.hasLocation location = true
    · exact hplaced location (hledger.isReached_of_mem hlocation hmem)
    · rw [hunplaced hlocation hvalid, hunplaced hlocation (run_eq_ok_iff.mp hrun).1]

/-- Only reached locations matter: a valid search that differs in its placement, but not at
the locations reached, and in forbidding more, but none of these, has the same outcome. -/
theorem run_eq_of_reached : pathfinder.run start? other = .ok search := by
  have hstarting : other.starting? = options.starting? := by rw [hrest]
  refine run_eq_of_agree hrun hvalid ?_
    (agreeOn_of_reached hrun hvalid hrest hplaced hforbidden hallowed)
  rw [startingOf, startingOf, hstarting]

end Reached

/-- A search of the meadow without a sword from the start.  It finds the one in the chest
and does not get at the pool. -/
def chestOptions : SearchOptions :=
  { meadowOptions with starting? := some (.none 1) }

/-- The same search with nothing in the pool, which is forbidden. -/
def drainedOptions : SearchOptions :=
  { chestOptions with
    items? := some (Placement.empty.insert ⟨0, 0⟩ ⟨0, 0⟩)
    forbidden := [⟨0, 1⟩] }

theorem run_eq_of_reached_chest :
    ∃ search, meadowSolver.run none chestOptions = .ok search ∧
      search.state.reachedLocations = [⟨0, 0⟩] ∧
      chestOptions.placed? ⟨0, 1⟩ ≠ drainedOptions.placed? ⟨0, 1⟩ ∧
      meadowSolver.run none drainedOptions = .ok search := by
  obtain ⟨search, hrun, hlist⟩ : ∃ search, meadowSolver.run none chestOptions = .ok search ∧
      search.state.reachedLocations = [⟨0, 0⟩] :=
    ⟨_, rfl, rfl⟩
  have hreached : ∀ location, search.state.isReached location = true → location = ⟨0, 0⟩ := by
    intro location hlocation
    rw [← SearchState.mem_reachedLocations, hlist] at hlocation
    exact List.mem_singleton.mp hlocation
  refine ⟨search, hrun, hlist, by decide, run_eq_of_reached hrun rfl rfl ?_ ?_ ?_⟩
  · intro location hlocation
    rw [hreached location hlocation]
    rfl
  · exact List.nil_subset _
  · intro location hlocation
    rw [hreached location hlocation]
    decide

end Pathfinder

end SeedLogic
