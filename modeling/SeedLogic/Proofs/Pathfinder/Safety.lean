import Mathlib.Data.List.Induction
import SeedLogic.Proofs.Pathfinder.Beginning
import SeedLogic.Proofs.Pathfinder.InRange

/-!
# Searches stay in range

A search over worlds whose numbers all exist reads and writes no table out of range
(`run?_eq_run`): its options are validated before they are used, its beginning has the
sizes of the worlds, and so has the state after every round.
-/

namespace SeedLogic

/-! ## Checked outcomes -/

namespace Checked

variable {α β : Type}

theorem bind_outcome {first : Except LogicError α} {next? : α → Checked β}
    {next : α → Except LogicError β}
    (hnext : ∀ value, first = .ok value → next? value = outcome (next value)) :
    (outcome first >>= next?) = outcome (first >>= next) := by
  cases first with
  | error fault => rfl
  | ok value => exact hnext value rfl

theorem forM_eq_outcome {check? : α → Checked PUnit} {check : α → Except LogicError PUnit}
    {entries : List α} (hcheck : ∀ entry ∈ entries, check? entry = outcome (check entry)) :
    entries.forM check? = outcome (entries.forM check) := by
  induction entries with
  | nil => rfl
  | cons entry entries ih =>
      change (check? entry >>= fun _ => entries.forM check?) =
        outcome (check entry >>= fun _ => entries.forM check)
      rw [List.forall_mem_cons] at hcheck
      rw [hcheck.1]
      exact bind_outcome fun _ _ => ih hcheck.2

theorem mapM_eq_outcome {step? : α → Checked β} {step : α → Except LogicError β}
    {entries : List α} (hstep : ∀ entry ∈ entries, step? entry = outcome (step entry)) :
    entries.mapM step? = outcome (entries.mapM step) := by
  induction entries with
  | nil => rfl
  | cons entry entries ih =>
      rw [List.forall_mem_cons] at hstep
      rw [List.mapM_cons, List.mapM_cons, hstep.1]
      refine bind_outcome fun value _ => ?_
      rw [ih hstep.2]
      exact bind_outcome fun _ _ => rfl

/-- Checking each entry against what has its number in a longer list is checking pairs. -/
theorem forM_zipIdx_eq_outcome {lefts : List α} {rights : List β}
    (hlength : rights.length ≤ lefts.length) (check : (α × β) × Nat → Except LogicError Unit) :
    (rights.zipIdx.forM fun entry => do
      let left ← access lefts[entry.2]?
      outcome (check ((left, entry.1), entry.2))) =
      outcome ((lefts.zip rights).zipIdx.forM check) := by
  have hrights : rights.zipIdx = (lefts.zip rights).zipIdx.map (Prod.map Prod.snd id) := by
    rw [← List.zipIdx_map, List.map_snd_zip hlength]
  rw [hrights, List.forM_eq_forM, List.forM_map]
  refine forM_eq_outcome fun entry hentry => ?_
  have hpair := List.mk_mem_zipIdx_iff_getElem?.mp hentry
  have hleft := (List.getElem?_zip_eq_some.mp hpair).1
  change (access lefts[entry.2]? >>= fun left => outcome (check ((left, entry.1.2), entry.2))) = _
  rw [hleft]
  rfl

end Checked

/-! ## Lists of states -/

section Lists

variable {σ β : Type}

theorem modify?_eq_some {change? : σ → Option σ} {states : List σ} {id : Nat} {state next : σ}
    (hstate : states[id]? = some state) (hchange : change? state = some next) :
    modify? change? id states = some (states.set id next) := by
  rw [modify?, hstate]
  change (change? state >>= fun next => some (states.set id next)) = _
  rw [hchange]
  rfl

/-- Steps that all succeed, with the results in the places of the states. -/
theorem mapM_zipIdx_eq_some {step? : σ × Nat → Option β} {states : List σ} {results : List β}
    (hlength : states.length = results.length)
    (hstep : ∀ id state, states[id]? = some state →
      ∃ result, results[id]? = some result ∧ step? (state, id) = some result) :
    states.zipIdx.mapM step? = some results := by
  refine Outcome.mapM_eq_some_of_forall₂ (List.forall₂_iff_get.mpr
    ⟨List.length_zipIdx.trans hlength, fun id hleft hright => ?_⟩)
  have hstate := List.getElem?_eq_getElem (List.length_zipIdx ▸ hleft : id < states.length)
  rcases hstep id _ hstate with ⟨result, hresult, hdone⟩
  rw [List.getElem?_eq_getElem hright] at hresult
  cases hresult
  simpa using hdone

end Lists

/-! ## Validation -/

theorem StartingItems.validate?_eq_validate (starting : StartingItems) (worlds : List World) :
    starting.validate? worlds = .outcome (starting.validate worlds) := by
  unfold StartingItems.validate? StartingItems.validate
  split
  case isTrue => rfl
  case isFalse hfit =>
    rcases Nat.max_le.mp (Nat.le_of_not_lt hfit) with ⟨hitems, hevents⟩
    rw [Checked.forM_zipIdx_eq_outcome hitems, Checked.forM_zipIdx_eq_outcome hevents]
    exact Checked.bind_outcome fun _ _ => rfl

namespace Pathfinder

variable {pathfinder : Pathfinder} {start? : Option (List String)} {options : SearchOptions}
  {starting : StartingItems}

theorem hasPlace?_eq_some (pathfinder : Pathfinder) (id : WorldId) (size : World → Nat)
    (place : Nat) : pathfinder.hasPlace? id size place =
      some ((pathfinder.world? id).elim false fun world => place < size world) := by
  rw [hasPlace?, getElem?_worlds]
  split
  case isTrue hid =>
    rw [← getElem?_worlds, List.getElem?_eq_getElem hid]
    rfl
  case isFalse hid =>
    rw [← getElem?_worlds, List.getElem?_eq_none (Nat.le_of_not_lt hid)]
    rfl

theorem hasLocation?_eq_some (pathfinder : Pathfinder) (location : Location) :
    pathfinder.hasLocation? location = some (pathfinder.hasLocation location) := by
  rw [hasLocation?, hasPlace?_eq_some, hasLocation]
  cases pathfinder.world? location.world <;> rfl

theorem hasItem?_eq_some (pathfinder : Pathfinder) (placed : PlayerItem) :
    pathfinder.hasItem? placed = some (pathfinder.hasItem placed) := by
  rw [hasItem?, hasPlace?_eq_some, hasItem]
  cases pathfinder.world? placed.player <;> rfl

theorem validatePlaced?_eq_validateEntry (pathfinder : Pathfinder)
    (entry : Location × PlayerItem) :
    pathfinder.validatePlaced? entry = .outcome (pathfinder.validateEntry entry) := by
  rw [validatePlaced?, hasLocation?_eq_some, hasItem?_eq_some, validateEntry]
  cases pathfinder.hasLocation entry.1 <;> cases pathfinder.hasItem entry.2 <;> rfl

theorem validateForbidden?_eq_validateForbidden (pathfinder : Pathfinder) (location : Location) :
    pathfinder.validateForbidden? location = .outcome (pathfinder.validateForbidden location) := by
  rw [validateForbidden?, hasLocation?_eq_some, validateForbidden]
  cases pathfinder.hasLocation location <;> rfl

/-- Options are validated in range. -/
theorem validate?_eq_validate (pathfinder : Pathfinder) (options : SearchOptions) :
    pathfinder.validate? options = .outcome (pathfinder.validate options) := by
  have hentries : ∀ placement : Placement, placement.items.entries.forM pathfinder.validatePlaced? =
      .outcome (placement.items.entries.forM pathfinder.validateEntry) := fun placement =>
    Checked.forM_eq_outcome fun entry _ => validatePlaced?_eq_validateEntry pathfinder entry
  have hforbidden : options.forbidden.forM pathfinder.validateForbidden? =
      .outcome (options.forbidden.forM pathfinder.validateForbidden) :=
    Checked.forM_eq_outcome fun location _ =>
      validateForbidden?_eq_validateForbidden pathfinder location
  unfold validate? validate
  cases options.items? <;> cases options.starting? <;>
    simp only [hentries, hforbidden, StartingItems.validate?_eq_validate]
  · exact Checked.bind_outcome fun _ _ => rfl
  · exact Checked.bind_outcome fun _ _ => rfl
  · exact Checked.bind_outcome fun _ _ => Checked.bind_outcome fun _ _ => rfl
  · exact Checked.bind_outcome fun _ _ => Checked.bind_outcome fun _ _ => rfl

/-! ## Beginning -/

/-- The state with one starting item more. -/
def gainItem (state : WorldState) (item : ItemId × Nat) : WorldState :=
  { state with inventory := state.inventory.add item.1 item.2 }

/-- The state with one starting event more. -/
def gainEvent (state : WorldState) (event : EventId) : WorldState :=
  { state with events := state.events.mark event }

/-- A state is equipped one item and one event after the other. -/
theorem equip_eq_foldl (state : WorldState) (items : List (ItemId × Nat))
    (events : List EventId) :
    state.equip items events = events.foldl gainEvent (items.foldl gainItem state) := by
  have hitems : ∀ state : WorldState, items.foldl gainItem state =
      { state with
        inventory := items.foldl (fun inventory item => inventory.add item.1 item.2)
          state.inventory } := by
    induction items with
    | nil => exact fun _ => rfl
    | cons item items ih => exact fun state => ih (gainItem state item)
  have hevents : ∀ state : WorldState, events.foldl gainEvent state =
      { state with events := events.foldl Flags.mark state.events } := by
    induction events with
    | nil => exact fun _ => rfl
    | cons event events ih => exact fun state => ih (gainEvent state event)
  rw [hitems, hevents]
  rfl

theorem gainItem?_eq_some {world : World} {state : WorldState} {item : ItemId × Nat}
    (hfits : state.Fits world) (hitem : item.1 < world.itemCount) :
    gainItem? state item = some (gainItem state item) ∧ (gainItem state item).Fits world := by
  have hlt : item.1 < state.inventory.size := hfits.items ▸ hitem
  constructor
  · rw [gainItem?, Inventory.gain?_eq_some hlt]
    rfl
  · exact ⟨hfits.areas, hfits.locations, hfits.gossips, hfits.events,
      (Inventory.size_add hlt item.2).trans hfits.items⟩

theorem gainEvent?_eq_some {world : World} {state : WorldState} {event : EventId}
    (hfits : state.Fits world) (hevent : event < world.eventCount) :
    gainEvent? state event = some (gainEvent state event) ∧
      (gainEvent state event).Fits world := by
  have hlt : event < state.events.size := hfits.events ▸ hevent
  constructor
  · rw [gainEvent?, Flags.write?_eq_some hlt]
    rfl
  · exact ⟨hfits.areas, hfits.locations, hfits.gossips,
      (Flags.size_mark _ _).trans hfits.events, hfits.items⟩

/-- Gifts that the players they are meant for can take are given in range. -/
theorem grantEach?_eq_some {γ : Type} {grant? : WorldState → γ → Option WorldState}
    {grant : WorldState → γ → WorldState} {gifts : List (List γ)} {states : List WorldState}
    (hgifts : ∀ (id : Nat) (gift : List γ), gifts[id]? = some gift →
      ∃ state, states[id]? = some state ∧
      gift.foldlM grant? state = some (gift.foldl grant state)) :
    ∃ granted, grantEach? grant? gifts states = some granted ∧ ∀ id : Nat, granted[id]? =
      states[id]?.map fun state => (gifts[id]?.getD []).foldl grant state := by
  induction gifts using List.reverseRecOn with
  | nil => exact ⟨states, rfl, fun id => by simp⟩
  | append_singleton gifts gift ih =>
      obtain ⟨granted, hgranted, hplaces⟩ := ih fun id earlier hearlier => hgifts id earlier <| by
        rw [List.getElem?_append_left (List.getElem?_eq_some_iff.mp hearlier).1, hearlier]
      rcases hgifts gifts.length gift List.getElem?_concat_length with ⟨state, hstate, hgift⟩
      -- The player whose turn it is has been given nothing so far.
      have hlast : granted[gifts.length]? = some state := by
        rw [hplaces, hstate, List.getElem?_eq_none (Nat.le_refl _)]
        rfl
      refine ⟨granted.set gifts.length (gift.foldl grant state), ?_, fun id => ?_⟩
      · unfold grantEach? at hgranted ⊢
        rw [List.zipIdx_append, List.foldlM_append, hgranted, Nat.zero_add]
        change (modify? (gift.foldlM grant?) gifts.length granted >>= some) = _
        rw [modify?_eq_some hlast hgift]
        rfl
      · rw [List.getElem?_set]
        split
        case isTrue hid =>
          subst hid
          rw [if_pos (List.getElem?_eq_some_iff.mp hlast).1, hstate, List.getElem?_concat_length]
          rfl
        case isFalse hid =>
          have hsame : (gifts ++ [gift])[id]? = gifts[id]? := by
            rcases Nat.lt_or_gt_of_ne hid with hlater | hearlier
            · have hlength : (gifts ++ [gift]).length ≤ id := by simp; omega
              rw [List.getElem?_eq_none hlength, List.getElem?_eq_none (Nat.le_of_lt hlater)]
            · exact List.getElem?_append_left hearlier
          rw [hplaces, hsame]

theorem fits_initial (world : World) : (WorldState.initial world).Fits world := by
  constructor <;> simp [WorldState.initial, Inventory.empty, Inventory.size]

/-- Items of the world are gained in range, one after the other. -/
theorem foldlM_gainItem?_eq_some {world : World} {state : WorldState}
    {items : List (ItemId × Nat)} (hfits : state.Fits world)
    (hitems : ∀ item ∈ items, item.1 < world.itemCount) :
    items.foldlM gainItem? state = some (items.foldl gainItem state) ∧
      (items.foldl gainItem state).Fits world :=
  foldlM_eq_some (WorldState.Fits world)
    (fun item hmem _ hfits => gainItem?_eq_some hfits (hitems item hmem)) hfits

/-- Events of the world are gained in range, one after the other. -/
theorem foldlM_gainEvent?_eq_some {world : World} {state : WorldState} {events : List EventId}
    (hfits : state.Fits world) (hevents : ∀ event ∈ events, event < world.eventCount) :
    events.foldlM gainEvent? state = some (events.foldl gainEvent state) ∧
      (events.foldl gainEvent state).Fits world :=
  foldlM_eq_some (WorldState.Fits world)
    (fun event hmem _ hfits => gainEvent?_eq_some hfits (hevents event hmem)) hfits

/-- What a player starts with exists in the world of the player. -/
theorem lt_of_validate_starting (hvalid : starting.validate pathfinder.worlds = .ok ())
    {id : WorldId} {world : World} (hworld : pathfinder.world? id = some world) :
    (∀ item ∈ starting.itemsOf id, item.1 < world.itemCount) ∧
      ∀ event ∈ starting.eventsOf id, event < world.eventCount := by
  rcases validate_starting_eq_ok_iff.mp hvalid with ⟨hitems, hevents⟩
  constructor
  · cases hgift : starting.items[id]? with
    | none => simp [StartingItems.itemsOf, hgift]
    | some items =>
        rcases hitems id items hgift with ⟨other, hother, hlt⟩
        cases hworld.symm.trans hother
        simpa only [StartingItems.itemsOf, hgift, Option.getD_some] using hlt
  · cases hgift : starting.events[id]? with
    | none => simp [StartingItems.eventsOf, hgift]
    | some events =>
        rcases hevents id events hgift with ⟨other, hother, hlt⟩
        cases hworld.symm.trans hother
        simpa only [StartingItems.eventsOf, hgift, Option.getD_some] using hlt

/-- The state of a player who has starting items and events. -/
theorem fits_equip (hvalid : starting.validate pathfinder.worlds = .ok ())
    {id : WorldId} {world : World} (hworld : pathfinder.world? id = some world) :
    ((WorldState.initial world).equip (starting.itemsOf id) (starting.eventsOf id)).Fits world := by
  rcases lt_of_validate_starting hvalid hworld with ⟨hitems, hevents⟩
  rw [equip_eq_foldl]
  exact (foldlM_gainEvent?_eq_some (foldlM_gainItem?_eq_some (fits_initial world) hitems).2
    hevents).2

/-- Valid starting items are given in range. -/
theorem equipAll?_eq_some (hvalid : starting.validate pathfinder.worlds = .ok ()) :
    ∃ states, equipAll? starting (pathfinder.worlds.map WorldState.initial) = some states ∧
      ∀ id, states[id]? = (pathfinder.world? id).map fun world =>
        (WorldState.initial world).equip (starting.itemsOf id) (starting.eventsOf id) := by
  rcases validate_starting_eq_ok_iff.mp hvalid with ⟨hitems, hevents⟩
  have hinitial : ∀ id, (pathfinder.worlds.map WorldState.initial)[id]? =
      (pathfinder.world? id).map WorldState.initial := fun id => by
    rw [List.getElem?_map, getElem?_worlds]
  obtain ⟨middle, hmiddle, hmiddles⟩ : ∃ middle, grantEach? gainItem? starting.items
      (pathfinder.worlds.map WorldState.initial) = some middle ∧ ∀ id, middle[id]? =
        (pathfinder.worlds.map WorldState.initial)[id]?.map fun state =>
          (starting.itemsOf id).foldl gainItem state := by
    refine grantEach?_eq_some fun id items hgift => ?_
    rcases hitems id items hgift with ⟨world, hworld, hlt⟩
    refine ⟨_, by rw [hinitial, hworld, Option.map_some], ?_⟩
    exact (foldlM_gainItem?_eq_some (fits_initial world) hlt).1
  obtain ⟨states, hstates, hall⟩ : ∃ states, grantEach? gainEvent? starting.events middle =
      some states ∧ ∀ id, states[id]? = middle[id]?.map fun state =>
        (starting.eventsOf id).foldl gainEvent state := by
    refine grantEach?_eq_some fun id events hgift => ?_
    rcases hevents id events hgift with ⟨world, hworld, hlt⟩
    refine ⟨_, by rw [hmiddles, hinitial, hworld, Option.map_some, Option.map_some], ?_⟩
    exact (foldlM_gainEvent?_eq_some (foldlM_gainItem?_eq_some (fits_initial world)
      (lt_of_validate_starting hvalid hworld).1).2 hlt).1
  refine ⟨states, ?_, fun id => ?_⟩
  · rw [equipAll?, hmiddle]
    exact hstates
  · rw [hall, hmiddles, hinitial]
    cases pathfinder.world? id with
    | none => rfl
    | some world => exact congrArg some (equip_eq_foldl _ _ _).symm

/-- Start areas are marked in range. -/
theorem beginWorld?_eq_beginWorld {states : List WorldState} {entry : Player × WorldId}
    (hlinked : entry.1.world.Linked) {state : WorldState} (hfits : state.Fits entry.1.world)
    (hequip : state = (WorldState.initial entry.1.world).equip (starting.itemsOf entry.2)
      (starting.eventsOf entry.2))
    (hstate : states[entry.2]? = some state) :
    beginWorld? start? states entry = .outcome (beginWorld start? starting entry) := by
  refine Checked.bind_outcome fun starts hstarts => ?_
  cases starts.isEmpty with
  | true => rfl
  | false =>
      have hmarks : starts.foldlM Flags.write? state.areas =
          some (starts.foldl Flags.mark state.areas) := by
        refine (foldlM_eq_some (fun flags : Flags => flags.size = entry.1.world.areas.length)
          (fun area harea flags hsize => ?_) hfits.areas).1
        have harea := lt_of_isStart hlinked ((mem_startAreas hstarts).mp harea)
        exact ⟨Flags.write?_eq_some (hsize ▸ harea), (Flags.size_mark _ _).trans hsize⟩
      simp only [hstate, ← hequip]
      change (Checked.access (starts.foldlM Flags.write? state.areas) >>= _) = _
      rw [hmarks]
      rfl

/-- Every state has the sizes of the world of its player. -/
structure Fits (pathfinder : Pathfinder) (states : List WorldState) : Prop where
  length : states.length = pathfinder.players.length
  world : ∀ {id : WorldId} {player : Player} {state : WorldState},
    pathfinder.players[id]? = some player → states[id]? = some state → state.Fits player.world

/-- A search begins in range. -/
theorem begin?_eq_begin (hsound : ∀ player ∈ pathfinder.players, player.Sound)
    (hvalid : starting.validate pathfinder.worlds = .ok ()) :
    pathfinder.begin? start? starting = .outcome (pathfinder.begin start? starting) := by
  rcases equipAll?_eq_some hvalid with ⟨states, hstates, hplaces⟩
  rw [begin?, hstates]
  have hworlds : pathfinder.players.zipIdx.mapM (beginWorld? start? states) =
      .outcome (pathfinder.players.zipIdx.mapM (beginWorld start? starting)) := by
    refine Checked.mapM_eq_outcome fun entry hentry => ?_
    have hplayer := List.mk_mem_zipIdx_iff_getElem?.mp hentry
    have hworld : pathfinder.world? entry.2 = some entry.1.world := by
      rw [world?, hplayer, Option.map_some]
    have hlinked := (hsound entry.1 (List.mem_of_getElem? hplayer)).linked
    exact beginWorld?_eq_beginWorld hlinked (fits_equip hvalid hworld) rfl
      (by rw [hplaces, hworld, Option.map_some])
  change (pathfinder.players.zipIdx.mapM (beginWorld? start? states) >>= _) = _
  rw [hworlds]
  exact Checked.bind_outcome fun _ _ => rfl

theorem fits_of_begin (hvalid : starting.validate pathfinder.worlds = .ok ())
    {state : SearchState} (hbegin : pathfinder.begin start? starting = .ok state) :
    pathfinder.Fits state.worlds := by
  refine ⟨(begins_of_begin hbegin).length, fun {id player world} hplayer hworld => ?_⟩
  rcases Outcome.bind_eq_ok.mp hbegin with ⟨worlds, hworlds, hbegin⟩
  cases hbegin
  have hentry : pathfinder.players.zipIdx[id]? = some (player, id) := by simp [hplayer]
  rcases Outcome.getElem?_mapM hworlds hentry with ⟨other, hother, hstep⟩
  cases hworld.symm.trans hother
  rcases Outcome.bind_eq_ok.mp hstep with ⟨starts, -, hstep⟩
  split at hstep
  case isTrue => cases hstep
  case isFalse =>
    cases hstep
    have hknown : pathfinder.world? id = some player.world := by
      rw [world?, hplayer, Option.map_some]
    have hfits := fits_equip hvalid hknown
    exact ⟨(Flags.size_foldl_mark _ _).trans hfits.areas, hfits.locations, hfits.gossips,
      hfits.events, hfits.items⟩

/-! ## Rounds -/

/-- Each state is that of a player, whose world has its sizes. -/
theorem Fits.exists_player {states : List WorldState} (hfits : pathfinder.Fits states)
    {id : WorldId} {state : WorldState} (hstate : states[id]? = some state) :
    ∃ player, pathfinder.players[id]? = some player ∧ state.Fits player.world := by
  have hlt := hfits.length ▸ (List.getElem?_eq_some_iff.mp hstate).1
  have hplayer := List.getElem?_eq_getElem hlt
  exact ⟨_, hplayer, hfits.world hplayer hstate⟩

/-- Each player has a state, with the sizes of the player's world. -/
theorem Fits.exists_state {states : List WorldState} (hfits : pathfinder.Fits states)
    {id : WorldId} {player : Player} (hplayer : pathfinder.players[id]? = some player) :
    ∃ state, states[id]? = some state ∧ state.Fits player.world := by
  have hlt := hfits.length.symm ▸ (List.getElem?_eq_some_iff.mp hplayer).1
  have hstate := List.getElem?_eq_getElem hlt
  exact ⟨_, hstate, hfits.world hplayer hstate⟩

variable {states : List WorldState}

/-- Steps that stay in range in the world of each player do so in all of them. -/
theorem Fits.forEach {β : Type} (hfits : pathfinder.Fits states) (view : β → WorldState)
    {step? : WorldState × WorldId → Option β} {results : List β}
    (hlength : results.length = pathfinder.players.length)
    (hstep : ∀ (id : WorldId) (player : Player) (state : WorldState),
      pathfinder.players[id]? = some player → states[id]? = some state →
      state.Fits player.world → ∃ result, results[id]? = some result ∧
        step? (state, id) = some result ∧ (view result).Fits player.world) :
    states.zipIdx.mapM step? = some results ∧ pathfinder.Fits (results.map view) := by
  constructor
  · refine mapM_zipIdx_eq_some (hfits.length.trans hlength.symm) fun id state hstate => ?_
    rcases hfits.exists_player hstate with ⟨player, hplayer, hstateFits⟩
    rcases hstep id player state hplayer hstate hstateFits with ⟨result, hresult, hdone, -⟩
    exact ⟨result, hresult, hdone⟩
  · refine ⟨(List.length_map _).trans hlength, fun {id player after} hplayer hafter => ?_⟩
    rcases hfits.exists_state hplayer with ⟨state, hstate, hstateFits⟩
    rcases hstep id player state hplayer hstate hstateFits with ⟨result, hresult, -, hkept⟩
    rw [List.getElem?_map, hresult] at hafter
    cases hafter
    exact hkept

/-- All worlds are closed in range. -/
theorem closeAll?_eq_some (hsound : ∀ player ∈ pathfinder.players, player.Sound)
    (gossips : Bool) (hfits : pathfinder.Fits states) :
    pathfinder.closeAll? gossips states = some (pathfinder.close gossips states) ∧
      pathfinder.Fits (pathfinder.close gossips states) := by
  have hlength : (pathfinder.close gossips states).length = pathfinder.players.length := by
    simp [close, hfits.length]
  have hall : pathfinder.closeAll? gossips states = some (pathfinder.close gossips states) ∧
      pathfinder.Fits ((pathfinder.close gossips states).map id) := by
    refine hfits.forEach id hlength fun id player state hplayer hstate hstateFits => ?_
    rcases Player.close?_eq_some (hsound player (List.mem_of_getElem? hplayer)) gossips hstateFits
      with ⟨hclose, hclosed⟩
    refine ⟨_, getElem?_close_eq_some.mpr ⟨player, state, hplayer, hstate, rfl⟩, ?_, hclosed⟩
    rw [hplayer]
    exact hclose
  rwa [List.map_id] at hall

/-- All worlds are searched in range. -/
theorem searchAll?_eq_some (hsound : ∀ player ∈ pathfinder.players, player.Sound)
    (forbidden : List Location) (hfits : pathfinder.Fits states) :
    pathfinder.searchAll? forbidden states = some (pathfinder.search forbidden states) ∧
      pathfinder.Fits ((pathfinder.search forbidden states).map Prod.fst) := by
  have hlength : (pathfinder.search forbidden states).length = pathfinder.players.length := by
    simp [search, hfits.length]
  refine hfits.forEach Prod.fst hlength fun id player state hplayer hstate hstateFits => ?_
  rcases Player.search?_eq_some (hsound player (List.mem_of_getElem? hplayer)) id forbidden
    hstateFits with ⟨hsearch, hsearched⟩
  refine ⟨_, getElem?_search_eq_some.mpr ⟨player, state, hplayer, hstate, rfl⟩, ?_, hsearched⟩
  rw [hplayer]
  exact hsearch

/-- An item that exists is given in range. -/
theorem deliver?_eq_some {placement : Placement} {location : Location}
    (hplaced : ∀ placed, placement.get? location = some placed →
      pathfinder.hasItem placed = true) (hfits : pathfinder.Fits states) :
    deliver? placement states location = some (deliver placement states location) ∧
      pathfinder.Fits (deliver placement states location) := by
  unfold deliver? deliver
  cases hget : placement.get? location with
  | none => exact ⟨rfl, hfits⟩
  | some placed =>
      obtain ⟨player, hplayer, hitem⟩ : ∃ player,
          pathfinder.players[placed.player]? = some player ∧
            placed.item < player.world.itemCount := by
        have hknown := hplaced placed hget
        rw [hasItem, world?] at hknown
        cases hplayer : pathfinder.players[placed.player]? with
        | none => simp [hplayer] at hknown
        | some player => exact ⟨player, rfl, by simpa [hplayer] using hknown⟩
      rcases hfits.exists_state hplayer with ⟨state, hstate, hstateFits⟩
      have hgain : gainItem? state (placed.item, 1) = some (state.collect placed.item) ∧
          (state.collect placed.item).Fits player.world := gainItem?_eq_some hstateFits hitem
      constructor
      · change modify? _ placed.player states = some (states.modify placed.player _)
        rw [modify?_eq_some hstate hgain.1, List.modify_eq_set_getElem?, hstate]
        rfl
      · refine ⟨(List.length_modify _ _ _).trans hfits.length,
          fun {id other after} hother hafter => ?_⟩
        rw [List.getElem?_modify] at hafter
        split at hafter
        case isTrue hid =>
          subst hid
          cases hplayer.symm.trans hother
          rw [hstate] at hafter
          cases hafter
          exact hgain.2
        case isFalse =>
          rw [id_map'] at hafter
          exact hfits.world hother hafter

/-- Spheres are delivered in range. -/
theorem deliverAll?_eq_some (hvalid : pathfinder.validate options = .ok ())
    (sphere : List Location) (hfits : pathfinder.Fits states) :
    deliverAll? options states sphere = some (deliverAll options states sphere) ∧
      pathfinder.Fits (deliverAll options states sphere) := by
  unfold deliverAll? deliverAll
  cases options.recursive with
  | false => exact ⟨rfl, hfits⟩
  | true =>
      cases hitems : options.items? with
      | none => exact ⟨rfl, hfits⟩
      | some placement =>
          refine foldlM_eq_some pathfinder.Fits (fun location _ states hfits => ?_) hfits
          refine deliver?_eq_some (fun placed hget => ?_) hfits
          exact (exists_of_placed? hvalid (Option.bind_eq_some_iff.mpr
            ⟨placement, hitems, hget⟩)).2

variable {goal? : SearchState → Option Bool}

/-- A round stays in range. -/
theorem round?_eq_some (hsound : ∀ player ∈ pathfinder.players, player.Sound)
    (hvalid : pathfinder.validate options = .ok ())
    (hgoal : ∀ state, pathfinder.Fits state.worlds →
      goal? state = some (pathfinder.goal state))
    {state : SearchState} (hfits : pathfinder.Fits state.worlds) :
    pathfinder.round? goal? options state = some (pathfinder.round options state) ∧
      pathfinder.Fits (pathfinder.round options state).worlds := by
  rcases closeAll?_eq_some hsound options.gossips hfits with ⟨hclose, hclosed⟩
  rcases searchAll?_eq_some hsound options.forbidden hclosed with ⟨hsearch, hfound⟩
  rcases deliverAll?_eq_some hvalid
    ((pathfinder.search options.forbidden
      (pathfinder.close options.gossips state.worlds)).flatMap Prod.snd) hfound with
    ⟨hdeliver, hdelivered⟩
  refine ⟨?_, hdelivered⟩
  simp only [round?, hclose, hsearch, hdeliver, Option.bind_eq_bind, Option.bind_some]
  rw [hgoal _ hdelivered]
  rfl

/-- Rounds stay in range. -/
theorem rounds?_eq_some (hsound : ∀ player ∈ pathfinder.players, player.Sound)
    (hvalid : pathfinder.validate options = .ok ())
    (hgoal : ∀ state, pathfinder.Fits state.worlds →
      goal? state = some (pathfinder.goal state))
    (fuel iterations : Nat) {state : SearchState} (hfits : pathfinder.Fits state.worlds) :
    pathfinder.rounds? goal? options fuel iterations state =
      some (pathfinder.rounds options fuel iterations state) := by
  induction fuel generalizing iterations state with
  | zero => rfl
  | succ fuel ih =>
      rcases round?_eq_some hsound hvalid hgoal hfits with ⟨hround, hnext⟩
      simp only [rounds?, rounds, hround, Option.bind_eq_bind, Option.bind_some]
      split
      · rfl
      · split
        · rfl
        · exact ih _ hnext

/-- Where every number exists and the starting items are valid, searching index by index is
searching. -/
theorem run?_eq_run (hsound : ∀ player ∈ pathfinder.players, player.Sound)
    (hstarting : pathfinder.starting.validate pathfinder.worlds = .ok ())
    (hgoal : ∀ state, pathfinder.Fits state.worlds →
      goal? state = some (pathfinder.goal state))
    (start? : Option (List String)) (options : SearchOptions) :
    pathfinder.run? goal? start? options = .outcome (pathfinder.run start? options) := by
  rw [run?, validate?_eq_validate]
  refine Checked.bind_outcome fun _ hvalid => ?_
  have heffective : (options.starting?.getD pathfinder.starting).validate pathfinder.worlds =
      .ok () := by
    cases hown : options.starting? with
    | none => exact hstarting
    | some starting => exact (validate_eq_ok_iff.mp hvalid).2.2 starting hown
  rw [begin?_eq_begin hsound heffective]
  refine Checked.bind_outcome fun state hbegin => ?_
  rw [rounds?_eq_some hsound hvalid hgoal _ _ (fits_of_begin heffective hbegin)]
  rfl

end Pathfinder

/-- A goal of events that exist reads every state that fits in range. -/
theorem Goal.events?_eq_events {pathfinder : Pathfinder} {events : List (WorldId × EventId)}
    (hevents : ∀ entry ∈ events, ∃ world, pathfinder.world? entry.1 = some world ∧
      entry.2 < world.eventCount)
    {state : SearchState} (hfits : pathfinder.Fits state.worlds) :
    Goal.events? events state = some (Goal.events events state) := by
  have hread : events.mapM (fun entry : WorldId × EventId => do
      let world ← state.worlds[entry.1]?
      world.events.read? entry.2) =
      some (events.map fun entry => state.hasEvent entry.1 entry.2) := by
    apply Outcome.mapM_eq_some_map
    intro entry hentry
    rcases hevents entry hentry with ⟨world, hworld, hlt⟩
    rcases Option.map_eq_some_iff.mp hworld with ⟨player, hplayer, rfl⟩
    rcases hfits.exists_state hplayer with ⟨held, hheld, hheldFits⟩
    rw [SearchState.hasEvent, hheld]
    exact Flags.read?_eq_some (hheldFits.events ▸ hlt)
  rw [Goal.events?, hread]
  simp [Goal.events, List.all_map]

end SeedLogic
