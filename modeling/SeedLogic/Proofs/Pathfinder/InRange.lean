import SeedLogic.Proofs.Pathfinder.Checked
import SeedLogic.Proofs.Pathfinder.Search
import SeedLogic.Proofs.World.Coherence

/-!
# Accesses in range

Tables that have the sizes of a world are read and written in range by everything that
happens in that world: by its requirements (`eval?_eq_some`), while it is closed
(`close?_eq_some`) and while it is searched (`search?_eq_some`).  Each step agrees with
the step that passes numbers over, and keeps the sizes.
-/

namespace SeedLogic

/-! ## Tables -/

namespace Flags

theorem read?_eq_some {flags : Flags} {id : Nat} (hid : id < flags.size) :
    flags.read? id = some (flags.has id) := by
  have hbit := Array.getElem?_eq_getElem hid
  simp only [read?, has, hbit, Option.getD_some]

theorem write?_eq_some {flags : Flags} {id : Nat} (hid : id < flags.size) :
    flags.write? id = some (flags.mark id) :=
  if_pos hid

end Flags

namespace Inventory

theorem read?_eq_some {inventory : Inventory} {item : Nat} (hitem : item < inventory.size) :
    inventory.read? item = some (inventory.count item) := by
  have hcount := Array.getElem?_eq_getElem hitem
  simp only [read?, count, hcount, Option.getD_some]

theorem gain?_eq_some {inventory : Inventory} {item : Nat} (hitem : item < inventory.size)
    (amount : Nat) : inventory.gain? item amount = some (inventory.add item amount) :=
  if_pos hitem

/-- The table does not grow for an item that it has. -/
theorem size_add {inventory : Inventory} {item : Nat} (hitem : item < inventory.size)
    (amount : Nat) : (inventory.add item amount).size = inventory.size := by
  have hmissing : item + 1 - inventory.counts.size = 0 := Nat.sub_eq_zero_of_le hitem
  simp [add, size, hmissing]

end Inventory

/-- What agrees step by step agrees all along, and keeps what every step keeps. -/
theorem foldlM_eq_some {σ α : Type} (Holds : σ → Prop) {step? : σ → α → Option σ}
    {step : σ → α → σ} {entries : List α}
    (hstep : ∀ entry ∈ entries, ∀ state, Holds state →
      step? state entry = some (step state entry) ∧ Holds (step state entry))
    {state : σ} (hstate : Holds state) :
    entries.foldlM step? state = some (entries.foldl step state) ∧
      Holds (entries.foldl step state) := by
  induction entries generalizing state with
  | nil => exact ⟨rfl, hstate⟩
  | cons entry entries ih =>
      rcases hstep entry List.mem_cons_self state hstate with ⟨hfirst, hnext⟩
      rw [List.foldlM_cons, hfirst, List.foldl_cons]
      exact ih (fun other hother => hstep other (List.mem_cons_of_mem _ hother)) hnext

/-- Going through the numbers of a list and looking each up is going through the list. -/
theorem foldlM_range_eq_some {σ α : Type} (Holds : σ → Prop) {step? : σ → Nat → Option σ}
    {step : σ → α × Nat → σ} {entries : List α}
    (hstep : ∀ id entry, entries[id]? = some entry → ∀ state, Holds state →
      step? state id = some (step state (entry, id)) ∧ Holds (step state (entry, id)))
    {state : σ} (hstate : Holds state) :
    (List.range entries.length).foldlM step? state = some (entries.zipIdx.foldl step state) ∧
      Holds (entries.zipIdx.foldl step state) := by
  have hrange : List.range entries.length = entries.zipIdx.map Prod.snd := by
    rw [List.zipIdx_map_snd, List.range_eq_range']
  rw [hrange, List.foldlM_map]
  exact foldlM_eq_some Holds
    (fun entry hentry => hstep entry.2 entry.1 (List.mk_mem_zipIdx_iff_getElem?.mp hentry)) hstate

/-! ## Requirements -/

/-- The tables of a situation have the sizes of symbols. -/
structure Situation.Fits (symbols : Symbols) (situation : Situation) : Prop where
  items : situation.inventory.size = symbols.items.size
  events : situation.events.size = symbols.events.size
  settings : situation.settings.size = symbols.settings.size

namespace Requirement

variable {symbols : Symbols} {situation : Situation}

mutual

theorem eval?_eq_eval (hfits : situation.Fits symbols) : (requirement : Requirement) →
    (∀ atom ∈ requirement.atoms, atom.InRange symbols) →
    eval? situation requirement = some (eval situation requirement)
  | .const _, _ => rfl
  | .hasItem item count, hrange => by
      have hitem : item < symbols.items.size := hrange (.item item count) List.mem_cons_self
      rw [eval?, Inventory.read?_eq_some (hfits.items ▸ hitem)]
      rfl
  | .hasEvent event, hrange => by
      have hevent : event < symbols.events.size := hrange (.event event) List.mem_cons_self
      exact Flags.read?_eq_some (hfits.events ▸ hevent)
  | .setting id, hrange => by
      have hid : id < symbols.settings.size := hrange (.setting id) List.mem_cons_self
      exact Flags.read?_eq_some (hfits.settings ▸ hid)
  | .not operand, hrange => by
      rw [eval?, eval?_eq_eval hfits operand hrange]
      rfl
  | .and operands, hrange => by
      rw [eval?, evalEach?_eq_map hfits operands hrange, eval, evalAll_eq_all]
      simp [List.all_map]
  | .or operands, hrange => by
      rw [eval?, evalEach?_eq_map hfits operands hrange, eval, evalAny_eq_any]
      simp [List.any_map]
  | .atLeast count operands, hrange => by
      have hoperands := fun atom hatom =>
        hrange atom (List.mem_cons_of_mem (Atom.quorum count) hatom)
      rw [eval?, evalEach?_eq_map hfits operands hoperands, eval, evalCount_eq_countP]
      simp [List.countP_map]

theorem evalEach?_eq_map (hfits : situation.Fits symbols) : (operands : List Requirement) →
    (∀ atom ∈ atomsOfAll operands, atom.InRange symbols) →
    evalEach? situation operands = some (operands.map (eval situation))
  | [], _ => rfl
  | operand :: operands, hrange => by
      rw [atomsOfAll, List.forall_mem_append] at hrange
      rw [evalEach?, eval?_eq_eval hfits operand hrange.1, evalEach?_eq_map hfits operands hrange.2]
      rfl

end

end Requirement

/-! ## Closing a world -/

/-- The tables of a state have the sizes of a world. -/
structure WorldState.Fits (world : World) (state : WorldState) : Prop where
  areas : state.areas.size = world.areas.length
  locations : state.locations.size = world.checks.length
  gossips : state.gossips.size = world.gossips.length
  events : state.events.size = world.eventCount
  items : state.inventory.size = world.itemCount

/-- What grows keeps its sizes. -/
theorem WorldState.Fits.of_le {world : World} {before after : WorldState}
    (hfits : before.Fits world) (hle : before ≤ after)
    (hitems : after.inventory.size = before.inventory.size) : after.Fits world :=
  ⟨hle.areas.size.symm.trans hfits.areas, hle.locations.size.symm.trans hfits.locations,
    hle.gossips.size.symm.trans hfits.gossips, hle.events.size.symm.trans hfits.events,
    hitems.trans hfits.items⟩

namespace Player

/-- Every number in the world of a player exists, and every setting is resolved. -/
structure Sound (player : Player) : Prop where
  linked : player.world.Linked
  requirements : ∀ area ∈ player.world.areas, ∀ gate ∈ area.gates,
    gate.requirement.InRange player.world.symbols
  settings : player.settings.size = player.world.symbols.settings.size

variable {player : Player} {state : WorldState} {area : Area} {gate : Gate}

theorem opens?_eq_some (hsound : player.Sound) (hfits : state.Fits player.world)
    (harea : area ∈ player.world.areas) (hgate : gate ∈ area.gates) :
    state.opens? player.settings gate = some (state.opens player.settings gate) :=
  Requirement.eval?_eq_eval ⟨hfits.items, hfits.events, hsound.settings⟩ gate.requirement
    (hsound.requirements area harea gate hgate)

/-- A flag that is set already is set again by the gate, to no effect. -/
theorem passGate?_eq_some {table : WorldState → Flags}
    {update : WorldState → Flags → WorldState} {settings : Flags}
    (hupdate : update state (table state) = state) (htarget : gate.target < (table state).size)
    (hopens : state.opens? settings gate = some (state.opens settings gate)) :
    passGate? table update settings state gate =
      some (if state.opens settings gate then update state ((table state).mark gate.target)
        else state) := by
  unfold passGate?
  rw [Flags.read?_eq_some htarget, hopens, Flags.write?_eq_some htarget]
  cases hset : (table state).has gate.target with
  | true =>
      rw [Flags.mark_eq_self fun _ => hset, hupdate, ite_self]
      rfl
  | false =>
      cases state.opens settings gate <;> rfl

/-- A gate of a world leads into its tables, and passing it keeps their sizes. -/
theorem passGate?_stays {table : WorldState → Flags}
    {update : WorldState → Flags → WorldState} {next : WorldState} (hsound : player.Sound)
    (harea : area ∈ player.world.areas) (hgate : gate ∈ area.gates)
    (hfits : state.Fits player.world) (hupdate : update state (table state) = state)
    (hitems : ∀ flags, (update state flags).inventory = state.inventory)
    (htarget : gate.target < (table state).size)
    (hnext : next = if state.opens player.settings gate then
      update state ((table state).mark gate.target) else state) (hle : state ≤ next) :
    passGate? table update player.settings state gate = some next ∧ next.Fits player.world := by
  subst hnext
  refine ⟨passGate?_eq_some hupdate htarget (opens?_eq_some hsound hfits harea hgate),
    hfits.of_le hle ?_⟩
  split
  · rw [hitems]
  · rfl

theorem takeEvent?_eq_some (hsound : player.Sound) (harea : area ∈ player.world.areas)
    (hgate : gate ∈ area.events) (hfits : state.Fits player.world) :
    takeEvent? player.settings state gate = some (takeEvent player.settings state gate) ∧
      (takeEvent player.settings state gate).Fits player.world := by
  have htarget : gate.target < state.events.size :=
    hfits.events ▸ hsound.linked.events area harea gate hgate
  have hmem : gate ∈ area.gates := by simp [Area.gates, hgate]
  exact passGate?_stays hsound harea hmem hfits rfl (fun _ => rfl) htarget rfl
    (grows_takeEvent _ _ _).le

theorem takeExit?_eq_some (hsound : player.Sound) (harea : area ∈ player.world.areas)
    (hgate : gate ∈ area.exits) (hfits : state.Fits player.world) :
    takeExit? player.settings state gate = some (takeExit player.settings state gate) ∧
      (takeExit player.settings state gate).Fits player.world := by
  have htarget : gate.target < state.areas.size :=
    hfits.areas ▸ hsound.linked.exits area harea gate hgate
  have hmem : gate ∈ area.gates := by simp [Area.gates, hgate]
  exact passGate?_stays hsound harea hmem hfits rfl (fun _ => rfl) htarget rfl
    (grows_takeExit _ _ _).le

theorem takeGossip?_eq_some (hsound : player.Sound) (harea : area ∈ player.world.areas)
    (hgate : gate ∈ area.gossips) (hfits : state.Fits player.world) :
    takeGossip? player.settings state gate = some (takeGossip player.settings state gate) ∧
      (takeGossip player.settings state gate).Fits player.world := by
  have htarget : gate.target < state.gossips.size :=
    hfits.gossips ▸ hsound.linked.gossips area harea gate hgate
  have hmem : gate ∈ area.gates := by simp [Area.gates, hgate]
  exact passGate?_stays hsound harea hmem hfits rfl (fun _ => rfl) htarget rfl
    (grows_takeGossip _ _ _).le

theorem visitArea?_eq_some (hsound : player.Sound) (gossips : Bool) {id : AreaId}
    (hid : player.world.areas[id]? = some area) (hfits : state.Fits player.world) :
    player.visitArea? gossips state id =
        some (visitArea player.settings gossips state (area, id)) ∧
      (visitArea player.settings gossips state (area, id)).Fits player.world := by
  have harea := List.mem_of_getElem? hid
  have hlt : id < state.areas.size := hfits.areas ▸ (List.getElem?_eq_some_iff.mp hid).1
  unfold visitArea? visitArea
  rw [Flags.read?_eq_some hlt, hid]
  cases state.areas.has id with
  | false => exact ⟨rfl, hfits⟩
  | true =>
      rcases foldlM_eq_some (WorldState.Fits player.world)
        (fun _ hgate _ => takeEvent?_eq_some hsound harea hgate) hfits with ⟨hevents, hfits⟩
      rcases foldlM_eq_some (WorldState.Fits player.world)
        (fun _ hgate _ => takeExit?_eq_some hsound harea hgate) hfits with ⟨hexits, hfits⟩
      simp only [Option.bind_eq_bind, Option.bind_some, if_true, hevents, hexits]
      cases gossips with
      | false => exact ⟨rfl, hfits⟩
      | true =>
          exact foldlM_eq_some (WorldState.Fits player.world)
            (fun _ hgate _ => takeGossip?_eq_some hsound harea hgate) hfits

theorem sweep?_eq_some (hsound : player.Sound) (gossips : Bool)
    (hfits : state.Fits player.world) :
    player.sweep? gossips state = some (player.sweep gossips state) ∧
      (player.sweep gossips state).Fits player.world := by
  rw [sweep?, hfits.areas]
  exact foldlM_range_eq_some (WorldState.Fits player.world)
    (fun _ _ hid _ => visitArea?_eq_some hsound gossips hid) hfits

theorem sweepUntilStable?_eq_some (hsound : player.Sound) (gossips : Bool) (fuel : Nat)
    (hfits : state.Fits player.world) :
    player.sweepUntilStable? gossips fuel state =
        some (player.sweepUntilStable gossips fuel state) ∧
      (player.sweepUntilStable gossips fuel state).Fits player.world := by
  induction fuel generalizing state with
  | zero => exact ⟨rfl, hfits⟩
  | succ fuel ih =>
      rcases sweep?_eq_some hsound gossips hfits with ⟨hsweep, hnext⟩
      simp only [sweepUntilStable?, sweepUntilStable, hsweep, Option.bind_eq_bind,
        Option.bind_some]
      split
      · exact ⟨rfl, hnext⟩
      · exact ih hnext

/-- A world is closed in range. -/
theorem close?_eq_some (hsound : player.Sound) (gossips : Bool)
    (hfits : state.Fits player.world) :
    player.close? gossips state = some (player.close gossips state) ∧
      (player.close gossips state).Fits player.world :=
  sweepUntilStable?_eq_some hsound gossips _ hfits

/-! ## Searching a world -/

variable {id : WorldId} {forbidden : List Location} {found : WorldState × List Location}

theorem takeLocation?_eq_some (hsound : player.Sound) (harea : area ∈ player.world.areas)
    (hgate : gate ∈ area.locations) (hfits : found.1.Fits player.world) :
    takeLocation? player.settings id forbidden found gate =
        some (takeLocation player.settings id forbidden found gate) ∧
      (takeLocation player.settings id forbidden found gate).1.Fits player.world := by
  have htarget : gate.target < found.1.locations.size :=
    hfits.locations ▸ hsound.linked.locations area harea gate hgate
  have hmem : gate ∈ area.gates := by simp [Area.gates, hgate]
  constructor
  · simp only [takeLocation?, takeLocation]
    rw [Flags.read?_eq_some htarget, opens?_eq_some hsound hfits harea hmem,
      Flags.write?_eq_some htarget]
    cases found.1.locations.has gate.target <;> cases forbidden.contains ⟨id, gate.target⟩ <;>
      cases found.1.opens player.settings gate <;> rfl
  · refine hfits.of_le (grows_takeLocation player.settings id forbidden found gate).le ?_
    simp only [takeLocation]
    split
    · rfl
    · split <;> rfl

theorem searchArea?_eq_some (hsound : player.Sound) {place : AreaId}
    (hplace : player.world.areas[place]? = some area) (hfits : found.1.Fits player.world) :
    player.searchArea? id forbidden found place =
        some (searchArea player.settings id forbidden found (area, place)) ∧
      (searchArea player.settings id forbidden found (area, place)).1.Fits player.world := by
  have harea := List.mem_of_getElem? hplace
  have hlt : place < found.1.areas.size :=
    hfits.areas ▸ (List.getElem?_eq_some_iff.mp hplace).1
  unfold searchArea? searchArea
  rw [Flags.read?_eq_some hlt, hplace]
  cases found.1.areas.has place with
  | false => exact ⟨rfl, hfits⟩
  | true =>
      exact foldlM_eq_some (fun found : WorldState × _ => found.1.Fits player.world)
        (fun _ hgate _ => takeLocation?_eq_some hsound harea hgate) hfits

/-- A world is searched in range. -/
theorem search?_eq_some (hsound : player.Sound) (id : WorldId) (forbidden : List Location)
    (hfits : state.Fits player.world) :
    player.search? id forbidden state = some (player.search id forbidden state) ∧
      (player.search id forbidden state).1.Fits player.world := by
  rw [search?, hfits.areas]
  exact foldlM_range_eq_some (fun found : WorldState × _ => found.1.Fits player.world)
    (fun _ _ hplace _ => searchArea?_eq_some hsound hplace) hfits

end Player

end SeedLogic
