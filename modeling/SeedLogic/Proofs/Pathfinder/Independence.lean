import SeedLogic.Proofs.Pathfinder.Balance
import SeedLogic.Proofs.Pathfinder.Excerpt
import SeedLogic.Proofs.Pathfinder.Standstill

/-!
# Players who get nothing from others

Worlds are closed and searched on their own, and items are given out after that, so a
player notices the others only by the items that lie for him in their worlds.  When there
are none for some players in the worlds of the others, these players could just as well
search without them (`run_alone`): each round of theirs is the joint one as far as they
are concerned (`Shows.round`).
-/

namespace SeedLogic

/-! ## Searching a world under another number -/

namespace Player

variable {keep : WorldId → Bool} {id : WorldId}

/-- A world finds the same locations under its new number. -/
theorem search_restrict (player : Player) (hkeep : keep id = true) (forbidden : List Location)
    (state : WorldState) :
    player.search (rank keep id) (Location.restrict keep forbidden) state =
      ((player.search id forbidden state).1,
        (player.search id forbidden state).2.map (Location.renumber keep)) := by
  let view : WorldState × List Location → WorldState × List Location :=
    fun found => (found.1, found.2.map (Location.renumber keep))
  have htake : ∀ found gate,
      takeLocation player.settings (rank keep id) (Location.restrict keep forbidden)
          (view found) gate =
        view (takeLocation player.settings id forbidden found gate) := by
    intro found gate
    have hsame : (Location.restrict keep forbidden).contains ⟨rank keep id, gate.target⟩ =
        forbidden.contains ⟨id, gate.target⟩ := by
      have hlocation : keep (⟨id, gate.target⟩ : Location).world = true := hkeep
      rw [Bool.eq_iff_iff, List.contains_iff_mem, List.contains_iff_mem]
      exact Location.renumber_mem_restrict hlocation
    simp only [takeLocation, hsame, view]
    split
    case isTrue => rfl
    case isFalse =>
      split
      case isTrue => rw [List.map_append]; rfl
      case isFalse => rfl
  have harea : ∀ found entry,
      searchArea player.settings (rank keep id) (Location.restrict keep forbidden)
          (view found) entry =
        view (searchArea player.settings id forbidden found entry) := by
    intro found entry
    unfold searchArea
    split
    case isTrue => exact List.foldl_hom view htake
    case isFalse => rfl
  have hall : player.world.areas.zipIdx.foldl
      (searchArea player.settings (rank keep id) (Location.restrict keep forbidden))
      (view (state, [])) = view (player.search id forbidden state) :=
    List.foldl_hom view harea
  exact hall

end Player

/-! ## What some of the players see -/

/-- Spheres without the locations of the other players, as far as any are left. -/
def Location.restrictAll (keep : WorldId → Bool) (spheres : List (List Location)) :
    List (List Location) :=
  (spheres.map (Location.restrict keep)).filter fun sphere => !sphere.isEmpty

theorem Location.restrictAll_append (keep : WorldId → Bool) (spheres : List (List Location))
    (sphere : List Location) :
    restrictAll keep (spheres ++ [sphere]) =
      if (restrict keep sphere).isEmpty then restrictAll keep spheres
      else restrictAll keep spheres ++ [restrict keep sphere] := by
  simp only [restrictAll, List.map_append, List.map_singleton, List.filter_append]
  cases hempty : (restrict keep sphere).isEmpty <;> simp [hempty]

/-- Nothing lies in a world that is not kept for a player who is. -/
def SearchOptions.Separate (keep : WorldId → Bool) (options : SearchOptions) : Prop :=
  ∀ location placed, options.placed? location = some placed → keep placed.player = true →
    keep location.world = true

namespace Pathfinder

/-- A state of a search of some of the players is that of the joint one as far as they are
concerned. -/
structure Shows (keep : WorldId → Bool) (state alone : SearchState) : Prop where
  worlds : alone.worlds = excerpt keep state.worlds
  spheres : alone.spheres = Location.restrictAll keep state.spheres

variable {pathfinder : Pathfinder} {keep : WorldId → Bool} {goal : Goal}
  {start? : Option (List String)} {starting : StartingItems} {options : SearchOptions}
  {state alone : SearchState}

/-! ## Beginnings -/

/-- A world begins alike under its new number. -/
theorem beginWorld_restrict {player : Player} {id : WorldId} (hkeep : keep id = true)
    {world : WorldState} (hbegin : beginWorld start? starting (player, id) = .ok world) :
    beginWorld start? (starting.restrict keep) (player, rank keep id) = .ok world := by
  rcases Outcome.bind_eq_ok.mp hbegin with ⟨areas, hareas, hworld⟩
  apply Outcome.bind_eq_ok.mpr
  refine ⟨areas, hareas, ?_⟩
  rw [starting.itemsOf_restrict hkeep, starting.eventsOf_restrict hkeep]
  split at hworld
  case isTrue => cases hworld
  case isFalse hany =>
    rw [if_neg hany]
    exact hworld

theorem Shows.begin (hbegin : pathfinder.begin start? starting = .ok state) :
    ∃ alone, (pathfinder.restrict keep goal).begin start? (starting.restrict keep) = .ok alone ∧
      Shows keep state alone := by
  rcases Outcome.bind_eq_ok.mp hbegin with ⟨worlds, hworlds, hstate⟩
  cases hstate
  have hall : (excerpt keep pathfinder.players).zipIdx.mapM
      (beginWorld start? (starting.restrict keep)) = .ok (excerpt keep worlds) := by
    have hlength := Outcome.length_of_mapM hworlds
    rw [List.length_zipIdx] at hlength
    apply Outcome.mapM_eq_ok_of_getElem?
    · rw [List.length_zipIdx, length_excerpt, length_excerpt, hlength]
    · intro place entry world hentry hworld
      rcases getElem?_excerpt_eq_some.mp hworld with ⟨id, hkeep, rfl, hresult⟩
      rw [List.getElem?_zipIdx, getElem?_excerpt hkeep, Nat.zero_add] at hentry
      rcases Option.map_eq_some_iff.mp hentry with ⟨player, hplayer, rfl⟩
      have hold : pathfinder.players.zipIdx[id]? = some (player, id) := by simp [hplayer]
      rcases Outcome.getElem?_mapM hworlds hold with ⟨other, hother, hstep⟩
      cases hresult.symm.trans hother
      exact beginWorld_restrict hkeep hstep
  exact ⟨_, Outcome.bind_eq_ok.mpr ⟨_, hall, rfl⟩, ⟨rfl, rfl⟩⟩

/-! ## Rounds -/

/-- Each player that is kept finds the same. -/
theorem Shows.findings (hshows : Shows keep state alone) :
    (pathfinder.restrict keep goal).findings (options.restrict keep) alone =
      (excerpt keep (pathfinder.findings options state)).map fun found =>
        (found.1, found.2.map (Location.renumber keep)) := by
  apply List.ext_getElem?
  intro place
  apply Option.ext
  intro found
  rw [getElem?_findings_eq_some, List.getElem?_map, Option.map_eq_some_iff]
  constructor
  · rintro ⟨player, world, hplayer, hworld, rfl⟩
    rcases getElem?_excerpt_eq_some.mp hplayer with ⟨id, hkeep, rfl, hold⟩
    rw [hshows.worlds, getElem?_excerpt hkeep] at hworld
    refine ⟨_, ?_, (player.search_restrict hkeep _ _).symm⟩
    rw [getElem?_excerpt hkeep, getElem?_findings_eq_some]
    exact ⟨player, world, hold, hworld, rfl⟩
  · rintro ⟨old, hold, rfl⟩
    rcases getElem?_excerpt_eq_some.mp hold with ⟨id, hkeep, rfl, hfound⟩
    rcases getElem?_findings_eq_some.mp hfound with ⟨player, world, hplayer, hworld, rfl⟩
    have hsame : alone.worlds[rank keep id]? = some world := by
      rw [hshows.worlds, getElem?_excerpt hkeep, hworld]
    exact ⟨player, world, (getElem?_excerpt hkeep).trans hplayer, hsame,
      player.search_restrict hkeep _ _⟩

/-- When the parts of a list belong to the worlds of their places, those of the worlds that
are kept make up what is kept. -/
theorem restrict_flatMap_of_world {parts : List (WorldState × List Location)}
    (hworld : ∀ {id : WorldId} {part : WorldState × List Location}, parts[id]? = some part →
      ∀ location ∈ part.2, location.world = id) :
    Location.restrict keep (parts.flatMap Prod.snd) =
      (excerpt keep parts).flatMap fun part => part.2.map (Location.renumber keep) := by
  induction parts using List.reverseRecOn with
  | nil => rfl
  | append_singleton parts last ih =>
      have hparts : ∀ {id : WorldId} {part : WorldState × List Location},
          parts[id]? = some part → ∀ location ∈ part.2, location.world = id := by
        intro id part hpart
        apply hworld
        rw [List.getElem?_append_left (List.getElem?_eq_some_iff.mp hpart).1, hpart]
      have hlast : ∀ location ∈ last.2, location.world = parts.length :=
        hworld List.getElem?_concat_length
      have hkept : Location.restrict keep last.2 =
          (if keep parts.length then [last] else []).flatMap fun part =>
            part.2.map (Location.renumber keep) := by
        by_cases hkeep : keep parts.length = true
        · have hall : (last.2.filter fun location => keep location.world) = last.2 :=
            List.filter_eq_self.mpr fun location hlocation => hlast location hlocation ▸ hkeep
          rw [Location.restrict, hall, if_pos hkeep, List.flatMap_singleton]
        · have hnone : (last.2.filter fun location => keep location.world) = [] :=
            List.filter_eq_nil_iff.mpr fun location hlocation => hlast location hlocation ▸ hkeep
          rw [Location.restrict, hnone, if_neg hkeep]
          rfl
      rw [List.flatMap_append, excerpt_concat, List.flatMap_append, ← ih hparts, ← hkept,
        List.flatMap_singleton, Location.restrict_append]

/-- The sphere of the players that are kept is the joint one without the others. -/
theorem Shows.sphere (hshows : Shows keep state alone) :
    (pathfinder.restrict keep goal).sphere (options.restrict keep) alone =
      Location.restrict keep (pathfinder.sphere options state) := by
  have hworld : ∀ {id : WorldId} {part : WorldState × List Location},
      (pathfinder.findings options state)[id]? = some part →
        ∀ location ∈ part.2, location.world = id := by
    intro id part hpart location hlocation
    rcases getElem?_findings_eq_some.mp hpart with ⟨player, world, -, -, rfl⟩
    exact ((player.found_search id options.forbidden _).source location hlocation).1
  rw [Pathfinder.sphere, hshows.findings, Pathfinder.sphere, restrict_flatMap_of_world hworld,
    List.flatMap_map]

/-! ## Gifts -/

/-- At a location that is kept is collected what was, if it goes to a player who is kept. -/
theorem collected?_restrict {location : Location} (hkeep : keep location.world = true) :
    (options.restrict keep).collected? (location.renumber keep) =
      ((options.collected? location).filter fun placed => keep placed.player).map
        (PlayerItem.renumber keep) := by
  rw [SearchOptions.collected?_eq, SearchOptions.collected?_eq]
  change (if options.recursive then (options.restrict keep).placed? _ else none) = _
  cases options.recursive with
  | false => rfl
  | true =>
      cases hitems : options.items? with
      | none => simp [SearchOptions.placed?, SearchOptions.restrict, hitems]
      | some placement =>
          simpa [SearchOptions.placed?, SearchOptions.restrict, hitems] using
            Placement.get?_restrict hkeep

section Separate

variable (hseparate : options.Separate keep)
include hseparate

/-- What is handed over is noticed only where it was found, if at all. -/
theorem excerpt_hand (worlds : List WorldState) (location : Location) :
    excerpt keep (hand options worlds location) =
      if keep location.world then
        hand (options.restrict keep) (excerpt keep worlds) (location.renumber keep)
      else excerpt keep worlds := by
  unfold hand
  by_cases hkeep : keep location.world = true
  · rw [if_pos hkeep, collected?_restrict hkeep]
    cases hcollected : options.collected? location with
    | none => rfl
    | some placed =>
        simp only [excerpt_modify, Option.filter_some]
        by_cases hplayer : keep placed.player = true
        · rw [if_pos hplayer, if_pos hplayer]
          rfl
        · rw [if_neg hplayer, if_neg hplayer]
          rfl
  · rw [if_neg hkeep]
    cases hcollected : options.collected? location with
    | none => rfl
    | some placed =>
        have hplayer : ¬keep placed.player = true := by
          intro hplayer
          rw [SearchOptions.collected?_eq] at hcollected
          split at hcollected
          case isTrue => exact hkeep (hseparate location placed hcollected hplayer)
          case isFalse => cases hcollected
        simp only [excerpt_modify, if_neg hplayer]

/-- When a sphere is given out, the players that are kept get what they get alone. -/
theorem excerpt_deliverAll (worlds : List WorldState) (sphere : List Location) :
    excerpt keep (deliverAll options worlds sphere) =
      deliverAll (options.restrict keep) (excerpt keep worlds) (Location.restrict keep sphere) := by
  rw [deliverAll_eq_foldl, deliverAll_eq_foldl]
  induction sphere generalizing worlds with
  | nil => rfl
  | cons location sphere ih =>
      rw [List.foldl_cons, ih, excerpt_hand hseparate]
      by_cases hkeep : keep location.world = true
      · rw [if_pos hkeep, Location.restrict_cons_of_pos hkeep, List.foldl_cons]
      · rw [if_neg hkeep, Location.restrict_cons_of_neg hkeep]

/-- A round of the players that are kept is the joint one as far as they are concerned. -/
theorem Shows.round (hshows : Shows keep state alone) :
    Shows keep (pathfinder.round options state)
      ((pathfinder.restrict keep goal).round (options.restrict keep) alone) := by
  have hsphere : (pathfinder.restrict keep goal).sphere (options.restrict keep) alone =
      Location.restrict keep (pathfinder.sphere options state) := hshows.sphere
  constructor
  case worlds =>
    change deliverAll (options.restrict keep)
      (((pathfinder.restrict keep goal).findings (options.restrict keep) alone).map Prod.fst)
      ((pathfinder.restrict keep goal).sphere (options.restrict keep) alone) =
        excerpt keep (deliverAll options ((pathfinder.findings options state).map Prod.fst)
          (pathfinder.sphere options state))
    rw [excerpt_deliverAll hseparate, hsphere, hshows.findings, List.map_map, excerpt_map]
    rfl
  case spheres =>
    rw [spheres_round, spheres_round, hsphere, hshows.spheres]
    by_cases hempty : (pathfinder.sphere options state).isEmpty = true
    · rw [if_pos hempty, List.isEmpty_iff.mp hempty]
      rfl
    · rw [if_neg hempty, Location.restrictAll_append]

theorem Shows.iterate (hshows : Shows keep state alone) (count : Nat) :
    Shows keep ((pathfinder.round options)^[count] state)
      (((pathfinder.restrict keep goal).round (options.restrict keep))^[count] alone) := by
  induction count with
  | zero => exact hshows
  | succ count ih =>
      rw [Function.iterate_succ_apply', Function.iterate_succ_apply']
      exact ih.round hseparate

end Separate

/-! ## Runs -/

/-- When a search to its end is over, it may as well have gone on for longer. -/
theorem Runs.iterate_eq {count : Nat}
    (hlinked : ∀ player ∈ pathfinder.players, player.world.Linked)
    (hruns : pathfinder.Runs start? options state count) (hstop : options.stopAtGoal = false)
    (more : Nat) :
    ((pathfinder.round options)^[more + 1 + count] state).worlds =
        ((pathfinder.round options)^[count + 1] state).worlds ∧
      ((pathfinder.round options)^[more + 1 + count] state).spheres =
        ((pathfinder.round options)^[count + 1] state).spheres := by
  have hledger := ((begins_of_begin hruns.begins).ledger options).iterate count
  have hprogress : (pathfinder.round options ((pathfinder.round options)^[count] state)).progress =
      ((pathfinder.round options)^[count] state).progress := by
    rcases hruns.halts with ⟨-, hstops⟩ | hprogress
    · cases hstop.symm.trans hstops
    · exact hprogress
  rcases iterate_of_progress_eq hlinked hledger hprogress more with ⟨hworlds, hspheres, -⟩
  rw [Function.iterate_add_apply, Function.iterate_succ_apply' _ count]
  exact ⟨hworlds, hspheres⟩

/-- Players for whom nothing lies in the worlds of others reach without the others what
they reach in the joint search, and in the same spheres.  Built worlds are linked
(`World.Built.linked`). -/
theorem run_alone (hlinked : ∀ player ∈ pathfinder.players, player.world.Linked)
    (hstop : options.stopAtGoal = false) (hseparate : options.Separate keep) (goal : Goal)
    {search : Search} (hrun : pathfinder.run start? options = .ok search) :
    ∃ alone, (pathfinder.restrict keep goal).run start? (options.restrict keep) = .ok alone ∧
      alone.state.worlds = excerpt keep search.state.worlds ∧
      alone.state.spheres = Location.restrictAll keep search.state.spheres := by
  rcases run_eq_ok_iff.mp hrun with ⟨hvalid, state, count, hruns, rfl⟩
  rcases Shows.begin hruns.begins with ⟨alone, hbegin, hshows⟩
  rw [← startingOf_restrict] at hbegin
  rcases exists_runs (options.restrict keep) hbegin with ⟨fewer, halone, -⟩
  have hlinked' : ∀ player ∈ (pathfinder.restrict keep goal).players, player.world.Linked :=
    fun player hplayer => hlinked player (excerpt_subset keep _ hplayer)
  -- The joint search may take longer than the other, so both go on to a common round.
  have hjoint := hruns.iterate_eq hlinked hstop fewer
  have hlater := halone.iterate_eq hlinked' hstop count
  have hsame : Shows keep ((pathfinder.round options)^[fewer + 1 + count] state)
      (((pathfinder.restrict keep goal).round (options.restrict keep))^[fewer + 1 + count] alone) :=
    hshows.iterate hseparate _
  have hcount : count + 1 + fewer = fewer + 1 + count := by omega
  rw [hcount] at hlater
  refine ⟨_, run_eq_ok_iff.mpr ⟨validate_restrict hvalid, alone, fewer, halone, rfl⟩, ?_, ?_⟩
  · rw [← hlater.1, ← hjoint.1, hsame.worlds]
  · rw [← hlater.2, ← hjoint.2, hsame.spheres]

/-! ## A player who makes a gift -/

/-- A search for two players in the meadow in which both swords are the first player's. -/
def giftOptions : SearchOptions :=
  { SearchOptions.plain with
    items? := some (Placement.empty.insertAll [(⟨0, 0⟩, ⟨0, 0⟩), (⟨1, 0⟩, ⟨0, 0⟩)])
    recursive := true }

/-- The first player gets at the pool, in a second sphere; the other one, who receives
nothing, gets as far as alone. -/
theorem run_alone_gift :
    ∃ search alone, tradeSolver.run none giftOptions = .ok search ∧
      search.state.spheres = [[⟨0, 0⟩, ⟨1, 0⟩], [⟨0, 1⟩]] ∧
      (tradeSolver.restrict (· == 1) .never).run none (giftOptions.restrict (· == 1)) =
        .ok alone ∧
      alone.state.worlds = excerpt (· == 1) search.state.worlds ∧
      alone.state.spheres = [[⟨0, 0⟩]] := by
  have hlinked : ∀ player ∈ tradeSolver.players, player.world.Linked := by
    simpa [tradeSolver] using World.built_meadow.linked
  have hseparate : giftOptions.Separate (· == 1) := by
    intro location placed hplaced hplayer
    have hentry := Dict.find?_eq_some_iff.mp hplaced
    have hentries : (Placement.empty.insertAll
        [(⟨0, 0⟩, ⟨0, 0⟩), (⟨1, 0⟩, ⟨0, 0⟩)]).items.entries =
          [(⟨0, 0⟩, ⟨0, 0⟩), (⟨1, 0⟩, ⟨0, 0⟩)] := rfl
    rw [hentries] at hentry
    simp only [List.mem_cons, Prod.mk.injEq, List.not_mem_nil, or_false] at hentry
    rcases hentry with ⟨-, rfl⟩ | ⟨-, rfl⟩ <;> cases hplayer
  obtain ⟨search, hrun, hspheres⟩ : ∃ search, tradeSolver.run none giftOptions = .ok search ∧
      search.state.spheres = [[⟨0, 0⟩, ⟨1, 0⟩], [⟨0, 1⟩]] :=
    ⟨_, rfl, rfl⟩
  rcases run_alone hlinked rfl hseparate .never hrun with ⟨alone, halone, hworlds, hkept⟩
  rw [hspheres] at hkept
  exact ⟨search, alone, hrun, hspheres, halone, hworlds, hkept⟩

end Pathfinder

end SeedLogic
