import SeedLogic.Pathfinder
import SeedLogic.Proofs.Pathfinder.Search

/-!
# One round of a search

What a round does to one world: the world is closed, then searched, and then it
receives its items of the sphere found in all worlds (`round_world`).  The sphere
lists the new locations of each world (`count_sphere`).
-/

namespace SeedLogic

/-- The item that a search collects at a location. -/
def SearchOptions.collected? (options : SearchOptions) (location : Location) :
    Option PlayerItem :=
  if options.recursive then options.items?.bind fun placement => placement.get? location
  else none

/-- The item that lies at a location. -/
def SearchOptions.placed? (options : SearchOptions) (location : Location) : Option PlayerItem :=
  options.items?.bind fun placement => placement.get? location

/-- A recursive search collects what lies at a location, and another one nothing. -/
theorem SearchOptions.collected?_eq (options : SearchOptions) (location : Location) :
    options.collected? location = if options.recursive then options.placed? location else none :=
  rfl

/-! ## Receiving items -/

namespace WorldState

/-- The state is as before but for some of each item more, as far as can be counted. -/
structure Receives (gifts : ItemId → Nat) (before after : WorldState) : Prop where
  frame : after = { before with inventory := after.inventory }
  count : ∀ item, before.inventory.count item < Inventory.modulus →
    after.inventory.count item = (before.inventory.count item + gifts item) % Inventory.modulus

theorem Receives.le {gifts : ItemId → Nat} {before after : WorldState}
    (hreceives : Receives gifts before after) : before ≤ after := by
  have hrefl := before.le_refl
  rw [hreceives.frame]
  exact ⟨hrefl.areas, hrefl.locations, hrefl.gossips, hrefl.events⟩

theorem receives_zero (state : WorldState) : Receives (fun _ => 0) state state :=
  ⟨rfl, fun _ hcount => (Nat.mod_eq_of_lt hcount).symm⟩

theorem Receives.trans {early late : ItemId → Nat} {first second third : WorldState}
    (hearly : Receives early first second) (hlate : Receives late second third) :
    Receives (fun item => early item + late item) first third := by
  constructor
  · rw [hlate.frame, hearly.frame]
  · intro item hcount
    have hmiddle := hearly.count item hcount
    rw [hlate.count item (hmiddle ▸ Nat.mod_lt _ Inventory.modulus_pos), hmiddle,
      Nat.mod_add_mod, Nat.add_assoc]

theorem receives_collect (state : WorldState) (item : ItemId) :
    Receives (fun other => if item = other then 1 else 0) state (state.collect item) := by
  refine ⟨rfl, fun other hcount => (Inventory.count_add state.inventory item 1 other).trans ?_⟩
  split
  case isTrue => rfl
  case isFalse => exact (Nat.mod_eq_of_lt hcount).symm

end WorldState

namespace Pathfinder

/-- How many of the items collected at the listed locations go to a player. -/
def gifts (options : SearchOptions) (sphere : List Location) (id : WorldId) (item : ItemId) : Nat :=
  sphere.countP fun location => options.collected? location = some ⟨id, item⟩

variable {pathfinder : Pathfinder} {options : SearchOptions}

theorem receives_deliver {placement : Placement} {worlds : List WorldState} {id : WorldId}
    {state : WorldState} (hstate : worlds[id]? = some state) (location : Location) :
    ∃ after, (deliver placement worlds location)[id]? = some after ∧
      WorldState.Receives
        (fun item => if placement.get? location = some ⟨id, item⟩ then 1 else 0) state after := by
  unfold deliver
  cases hplaced : placement.get? location with
  | none => exact ⟨state, hstate, by simpa using state.receives_zero⟩
  | some placed =>
      by_cases hplayer : placed.player = id
      · subst hplayer
        refine ⟨state.collect placed.item, by simp [hstate], ?_⟩
        have hgift : ∀ item, (some placed = some ⟨placed.player, item⟩) ↔ placed.item = item := by
          intro item
          constructor
          · intro heq
            exact congrArg PlayerItem.item (Option.some.inj heq)
          · rintro rfl
            rfl
        simpa only [hgift] using state.receives_collect placed.item
      · refine ⟨state, by simp [hplayer, hstate], ?_⟩
        have hgift : ∀ item, some placed ≠ some ⟨id, item⟩ := fun item heq =>
          hplayer (congrArg PlayerItem.player (Option.some.inj heq))
        simpa [hgift] using state.receives_zero

/-- Delivering a sphere gives every player the items collected for him. -/
theorem receives_deliverAll {worlds : List WorldState} {id : WorldId} {state : WorldState}
    (hstate : worlds[id]? = some state) (sphere : List Location) :
    ∃ after, (deliverAll options worlds sphere)[id]? = some after ∧
      WorldState.Receives (gifts options sphere id) state after := by
  cases hrecursive : options.recursive with
  | false =>
      have hnone : gifts options sphere id = fun _ => 0 := by
        funext item
        simp [gifts, SearchOptions.collected?, hrecursive]
      exact ⟨state, by simp [deliverAll, hrecursive, hstate], hnone ▸ state.receives_zero⟩
  | true =>
      cases hitems : options.items? with
      | none =>
          have hnone : gifts options sphere id = fun _ => 0 := by
            funext item
            simp [gifts, SearchOptions.collected?, hitems]
          exact ⟨state, by simp [deliverAll, hrecursive, hitems, hstate],
            hnone ▸ state.receives_zero⟩
      | some placement =>
          simp only [deliverAll, hrecursive, hitems]
          induction sphere generalizing worlds state with
          | nil => exact ⟨state, hstate, state.receives_zero⟩
          | cons location sphere ih =>
              rcases receives_deliver hstate location with ⟨middle, hmiddle, hfirst⟩
              rcases ih hmiddle with ⟨after, hafter, hrest⟩
              refine ⟨after, hafter, ?_⟩
              have hgifts : gifts options (location :: sphere) id = fun item =>
                  (if placement.get? location = some ⟨id, item⟩ then 1 else 0) +
                    gifts options sphere id item := by
                funext item
                simp [gifts, SearchOptions.collected?, hrecursive, hitems, List.countP_cons,
                  Nat.add_comm]
              rw [hgifts]
              exact hfirst.trans hrest

theorem length_deliverAll (worlds : List WorldState) (sphere : List Location) :
    (deliverAll options worlds sphere).length = worlds.length := by
  unfold deliverAll
  split
  case h_2 => rfl
  case h_1 placement _ _ =>
    induction sphere generalizing worlds with
    | nil => rfl
    | cons location sphere ih =>
        rw [List.foldl_cons, ih, deliver]
        split <;> simp

/-! ## Worlds by number -/

/-- A world of a state is that of a player. -/
theorem exists_player {state : SearchState}
    (hlength : state.worlds.length = pathfinder.players.length) {id : WorldId}
    {world : WorldState} (hworld : state.worlds[id]? = some world) :
    ∃ player, pathfinder.players[id]? = some player := by
  have hid : id < pathfinder.players.length := by
    rw [← hlength]
    exact (List.getElem?_eq_some_iff.mp hworld).1
  exact ⟨_, List.getElem?_eq_getElem hid⟩

theorem getElem?_close_eq_some {gossips : Bool} {worlds : List WorldState} {id : WorldId}
    {closed : WorldState} :
    (pathfinder.close gossips worlds)[id]? = some closed ↔
      ∃ player state, pathfinder.players[id]? = some player ∧ worlds[id]? = some state ∧
        player.close gossips state = closed := by
  rw [close, List.getElem?_zipWith_eq_some]

theorem getElem?_search_eq_some {forbidden : List Location} {worlds : List WorldState}
    {id : WorldId} {found : WorldState × List Location} :
    (pathfinder.search forbidden worlds)[id]? = some found ↔
      ∃ player state, pathfinder.players[id]? = some player ∧ worlds[id]? = some state ∧
        player.search id forbidden state = found := by
  rw [search, List.getElem?_map, Option.map_eq_some_iff]
  simp only [List.getElem?_zipIdx, Nat.zero_add, Option.map_eq_some_iff]
  constructor
  · rintro ⟨entry, ⟨pair, hpair, rfl⟩, rfl⟩
    rcases List.getElem?_zip_eq_some.mp hpair with ⟨hplayer, hstate⟩
    exact ⟨pair.1, pair.2, hplayer, hstate, rfl⟩
  · rintro ⟨player, state, hplayer, hstate, rfl⟩
    exact ⟨((player, state), id), ⟨(player, state),
      List.getElem?_zip_eq_some.mpr ⟨hplayer, hstate⟩, rfl⟩, rfl⟩

/-! ## The sphere of a round -/

/-- What is found in each world when all of them are closed. -/
def findings (pathfinder : Pathfinder) (options : SearchOptions) (state : SearchState) :
    List (WorldState × List Location) :=
  pathfinder.search options.forbidden (pathfinder.close options.gossips state.worlds)

/-- The new locations of all worlds. -/
def sphere (pathfinder : Pathfinder) (options : SearchOptions) (state : SearchState) :
    List Location :=
  (pathfinder.findings options state).flatMap Prod.snd

theorem getElem?_findings_eq_some {state : SearchState} {id : WorldId}
    {found : WorldState × List Location} :
    (pathfinder.findings options state)[id]? = some found ↔
      ∃ player world, pathfinder.players[id]? = some player ∧ state.worlds[id]? = some world ∧
        player.search id options.forbidden (player.close options.gossips world) = found := by
  rw [findings, getElem?_search_eq_some]
  constructor
  · rintro ⟨player, closed, hplayer, hclosed, rfl⟩
    rcases getElem?_close_eq_some.mp hclosed with ⟨other, world, hother, hworld, rfl⟩
    cases hplayer.symm.trans hother
    exact ⟨player, world, hplayer, hworld, rfl⟩
  · rintro ⟨player, world, hplayer, hworld, rfl⟩
    exact ⟨player, _, hplayer,
      getElem?_close_eq_some.mpr ⟨player, world, hplayer, hworld, rfl⟩, rfl⟩

/-- Every location of a sphere was found in its own world. -/
theorem mem_sphere {state : SearchState} {location : Location} :
    location ∈ pathfinder.sphere options state ↔
      ∃ player world, pathfinder.players[location.world]? = some player ∧
        state.worlds[location.world]? = some world ∧
        location ∈ (player.search location.world options.forbidden
          (player.close options.gossips world)).2 := by
  rw [sphere, List.mem_flatMap]
  constructor
  · rintro ⟨found, hmem, hlocation⟩
    rcases List.mem_iff_getElem?.mp hmem with ⟨id, hfound⟩
    rcases getElem?_findings_eq_some.mp hfound with ⟨player, world, hplayer, hworld, rfl⟩
    have hid := ((player.found_search id options.forbidden _).source location hlocation).1
    subst hid
    exact ⟨player, world, hplayer, hworld, hlocation⟩
  · rintro ⟨player, world, hplayer, hworld, hlocation⟩
    exact ⟨_, List.mem_of_getElem?
      (getElem?_findings_eq_some.mpr ⟨player, world, hplayer, hworld, rfl⟩), hlocation⟩

/-- When the parts of a list belong to the worlds of their places, a location is
counted in the part of its world alone. -/
theorem count_flatMap_of_world {parts : List (WorldState × List Location)} {start : Nat}
    (hworld : ∀ id part, parts[id]? = some part → ∀ location ∈ part.2, location.world = start + id)
    {id : Nat} {part : WorldState × List Location} (hpart : parts[id]? = some part)
    (check : CheckId) :
    (parts.flatMap Prod.snd).count ⟨start + id, check⟩ = part.2.count ⟨start + id, check⟩ := by
  induction parts generalizing start id with
  | nil => simp at hpart
  | cons first parts ih =>
      rw [List.flatMap_cons, List.count_append]
      cases id with
      | zero =>
          obtain rfl : first = part := by simpa using hpart
          rw [Nat.add_eq_left, List.count_eq_zero, List.mem_flatMap]
          rintro ⟨other, hother, hlocation⟩
          rcases List.mem_iff_getElem?.mp hother with ⟨place, hplace⟩
          have hfar : start + 0 = start + (place + 1) :=
            hworld (place + 1) other (by simpa using hplace) _ hlocation
          omega
      | succ id =>
          have hfirst : first.2.count ⟨start + (id + 1), check⟩ = 0 := by
            rw [List.count_eq_zero]
            intro hlocation
            have hnear : start + (id + 1) = start + 0 := hworld 0 first rfl _ hlocation
            omega
          have hplace : ∀ place, start + (place + 1) = start + 1 + place := fun place => by omega
          have hshift : ∀ place part, parts[place]? = some part →
              ∀ location ∈ part.2, location.world = start + 1 + place := by
            intro place part hpart location hlocation
            rw [← hplace]
            exact hworld (place + 1) part (by simpa using hpart) location hlocation
          have hrest := ih hshift (by simpa using hpart)
          rw [hplace] at hfirst ⊢
          rw [hfirst, hrest, Nat.zero_add]

/-- A sphere has a location as often as the search of its world has found it. -/
theorem count_sphere {state : SearchState} {id : WorldId} {player : Player} {world : WorldState}
    (hplayer : pathfinder.players[id]? = some player) (hworld : state.worlds[id]? = some world)
    (check : CheckId) :
    (pathfinder.sphere options state).count ⟨id, check⟩ =
      (player.search id options.forbidden (player.close options.gossips world)).2.count
        ⟨id, check⟩ := by
  have hown : ∀ id part, (pathfinder.findings options state)[id]? = some part →
      ∀ location ∈ part.2, location.world = 0 + id := by
    intro id part hpart location hlocation
    rcases getElem?_findings_eq_some.mp hpart with ⟨player, world, -, -, rfl⟩
    rw [((player.found_search id options.forbidden _).source location hlocation).1, Nat.zero_add]
  have hcount := count_flatMap_of_world hown
    (getElem?_findings_eq_some.mpr ⟨player, world, hplayer, hworld, rfl⟩) check
  rwa [Nat.zero_add] at hcount

/-! ## Rounds -/

theorem spheres_round (state : SearchState) :
    (pathfinder.round options state).spheres =
      if (pathfinder.sphere options state).isEmpty then state.spheres
      else state.spheres ++ [pathfinder.sphere options state] :=
  rfl

/-- A round appends its sphere to the locations listed so far. -/
theorem flatten_spheres_round (state : SearchState) :
    (pathfinder.round options state).spheres.flatten =
      state.spheres.flatten ++ pathfinder.sphere options state := by
  rw [spheres_round]
  split
  case isTrue hempty => rw [List.isEmpty_iff.mp hempty, List.append_nil]
  case isFalse => simp

theorem length_worlds_round (state : SearchState)
    (hlength : state.worlds.length = pathfinder.players.length) :
    (pathfinder.round options state).worlds.length = pathfinder.players.length := by
  simp only [round, length_deliverAll, search, close, List.length_map, List.length_zipIdx,
    List.length_zip, List.length_zipWith, hlength, Nat.min_self]

/-- What a round does to one world. -/
theorem round_world (options : SearchOptions) {state : SearchState} {id : WorldId}
    {player : Player} {world : WorldState} (hplayer : pathfinder.players[id]? = some player)
    (hworld : state.worlds[id]? = some world) :
    ∃ after, (pathfinder.round options state).worlds[id]? = some after ∧
      WorldState.Receives (gifts options (pathfinder.sphere options state) id)
        (player.search id options.forbidden (player.close options.gossips world)).1 after := by
  have hfound : ((pathfinder.findings options state).map Prod.fst)[id]? =
      some (player.search id options.forbidden (player.close options.gossips world)).1 := by
    rw [List.getElem?_map, getElem?_findings_eq_some.mpr ⟨player, world, hplayer, hworld, rfl⟩]
    rfl
  exact receives_deliverAll hfound (pathfinder.sphere options state)

end Pathfinder

end SeedLogic
