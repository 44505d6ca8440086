import SeedLogic.Proofs.Pathfinder.Stopping

/-!
# Starting with what lies at locations

Items from the start can be given one by one (`StartingItems.count_addItem`).  A player
who is given what lies at some locations starts with as much more as a recursive search
gives for them (`count_startingOf_upFront`), and options stay acceptable by it
(`accepts_upFront`).  Players may also start with what they have come to have in the
course of a search (`count_startingOf_resuming`).
-/

namespace SeedLogic

namespace StartingItems

/-! ## Lists by player -/

section Append

variable {α : Type} {player id : Nat}

theorem getElem?_append_self (entry : α) (lists : List (List α)) :
    (append player entry lists)[player]? = some (lists[player]?.getD [] ++ [entry]) := by
  rw [append, List.getElem?_modify]
  by_cases hlt : player < lists.length
  · simp [List.getElem?_append_left hlt, List.getElem?_eq_getElem hlt]
  · have hmissing : player - lists.length < player + 1 - lists.length := by omega
    simp [List.getElem?_append_right (Nat.le_of_not_lt hlt), hmissing,
      List.getElem?_eq_none (Nat.le_of_not_lt hlt)]

/-- Another player keeps the list, or gets an empty one to fill up. -/
theorem getElem?_append_of_ne (hne : player ≠ id) (entry : α) (lists : List (List α)) :
    (append player entry lists)[id]? = lists[id]? ∨
      lists[id]? = .none ∧ id < player ∧ (append player entry lists)[id]? = some [] := by
  rw [append, List.getElem?_modify_ne _ _ hne]
  by_cases hlt : id < lists.length
  · exact .inl (List.getElem?_append_left hlt)
  · rw [List.getElem?_append_right (Nat.le_of_not_lt hlt), List.getElem?_replicate,
      List.getElem?_eq_none (Nat.le_of_not_lt hlt)]
    split
    case isTrue hmissing => exact .inr ⟨rfl, by omega, rfl⟩
    case isFalse => exact .inl rfl

end Append

/-! ## Giving items -/

variable (starting : StartingItems)

theorem itemsOf_addItem (player : WorldId) (item : ItemId) (amount : Nat) (id : WorldId) :
    (starting.addItem player item amount).itemsOf id =
      if player = id then starting.itemsOf id ++ [(item, amount)] else starting.itemsOf id := by
  simp only [addItem, itemsOf]
  split
  case isTrue heq =>
    subst heq
    rw [getElem?_append_self, Option.getD_some]
  case isFalse hne =>
    rcases getElem?_append_of_ne hne (item, amount) starting.items with hsame | ⟨hnone, -, hnew⟩
    · rw [hsame]
    · rw [hnone, hnew]
      rfl

/-- A player who is given some of an item starts with that many more of it. -/
theorem count_addItem (player : WorldId) (item : ItemId) (amount : Nat) (id : WorldId)
    (other : ItemId) : (starting.addItem player item amount).count id other =
      starting.count id other + if player = id ∧ item = other then amount else 0 := by
  rw [count, count, itemsOf_addItem]
  by_cases hplayer : player = id
  · by_cases hitem : item = other <;> simp [hplayer, hitem, List.filter_append]
  · simp [hplayer]

/-- Give each of the placed items to its player. -/
def grant (starting : StartingItems) (placed : List PlayerItem) : StartingItems :=
  placed.foldl (fun starting placed => starting.addItem placed.player placed.item 1) starting

theorem count_grant (placed : List PlayerItem) (id : WorldId) (item : ItemId) :
    (starting.grant placed).count id item =
      starting.count id item + placed.count ⟨id, item⟩ := by
  induction placed generalizing starting with
  | nil => rfl
  | cons first placed ih =>
      have hfirst : first = ⟨id, item⟩ ↔ first.player = id ∧ first.item = item := by
        rcases first with ⟨player, other⟩
        rw [PlayerItem.mk.injEq]
      rw [grant, List.foldl_cons, ← grant, ih, count_addItem, List.count_cons]
      simp only [beq_iff_eq, hfirst]
      omega

theorem events_grant (placed : List PlayerItem) :
    (starting.grant placed).events = starting.events := by
  induction placed generalizing starting with
  | nil => rfl
  | cons first placed ih => exact ih (starting.addItem first.player first.item 1)

end StartingItems

namespace Pathfinder

variable {pathfinder : Pathfinder} {start? : Option (List String)} {options : SearchOptions}
  {starting : StartingItems}

/-! ## Items that exist -/

/-- Every item that a player starts with exists in the player's world. -/
def HasItems (pathfinder : Pathfinder) (starting : StartingItems) : Prop :=
  ∀ id entries, starting.items[id]? = some entries →
    ∃ world, pathfinder.world? id = some world ∧ ∀ entry ∈ entries, entry.1 < world.itemCount

theorem hasItem_iff {placed : PlayerItem} :
    pathfinder.hasItem placed = true ↔
      ∃ world, pathfinder.world? placed.player = some world ∧ placed.item < world.itemCount := by
  rw [hasItem]
  cases pathfinder.world? placed.player <;> simp

theorem exists_world_of_lt {early late : WorldId} {world : World}
    (hworld : pathfinder.world? late = some world) (hlt : early < late) :
    ∃ world, pathfinder.world? early = some world := by
  rw [← getElem?_worlds] at hworld
  have hlate := (List.getElem?_eq_some_iff.mp hworld).1
  exact ⟨_, (getElem?_worlds pathfinder early).symm.trans
    (List.getElem?_eq_getElem (Nat.lt_trans hlt hlate))⟩

theorem HasItems.addItem (hitems : pathfinder.HasItems starting) {placed : PlayerItem}
    (hplaced : pathfinder.hasItem placed = true) (amount : Nat) :
    pathfinder.HasItems (starting.addItem placed.player placed.item amount) := by
  rcases hasItem_iff.mp hplaced with ⟨world, hworld, hlt⟩
  intro id entries hentries
  by_cases hplayer : placed.player = id
  · subst hplayer
    rw [StartingItems.addItem, StartingItems.getElem?_append_self] at hentries
    cases hentries
    refine ⟨world, hworld, fun entry hentry => ?_⟩
    rcases List.mem_append.mp hentry with hold | hnew
    · cases hown : starting.items[placed.player]? with
      | none => simp [hown] at hold
      | some own =>
          rw [hown, Option.getD_some] at hold
          rcases hitems _ own hown with ⟨other, hother, hall⟩
          cases hworld.symm.trans hother
          exact hall entry hold
    · rw [List.mem_singleton.mp hnew]
      exact hlt
  · rcases StartingItems.getElem?_append_of_ne hplayer (placed.item, amount) starting.items with
      hsame | ⟨-, hearly, hnew⟩
    · exact hitems id entries (hsame.symm.trans hentries)
    · obtain rfl : [] = entries := Option.some.inj (hnew.symm.trans hentries)
      rcases exists_world_of_lt hworld hearly with ⟨other, hother⟩
      exact ⟨other, hother, fun entry hentry => absurd hentry List.not_mem_nil⟩

theorem HasItems.grant (hitems : pathfinder.HasItems starting) {placed : List PlayerItem}
    (hplaced : ∀ one ∈ placed, pathfinder.hasItem one = true) :
    pathfinder.HasItems (starting.grant placed) := by
  induction placed generalizing starting with
  | nil => exact hitems
  | cons first placed ih =>
      rcases List.forall_mem_cons.mp hplaced with ⟨hfirst, hrest⟩
      exact ih (hitems.addItem hfirst 1) hrest

/-! ## Searches that start with what others find -/

/-- The search that collects nothing, but starts with what lies at some locations. -/
def upFront (pathfinder : Pathfinder) (options : SearchOptions) (locations : List Location) :
    SearchOptions :=
  { options with
    recursive := false
    starting? :=
      some ((pathfinder.startingOf options).grant (locations.filterMap options.placed?)) }

theorem accepts_upFront (haccepts : pathfinder.Accepts start? options)
    (locations : List Location) :
    pathfinder.Accepts start? (pathfinder.upFront options locations) := by
  constructor
  · exact haccepts.placement
  · exact haccepts.forbidden
  · refine HasItems.grant haccepts.items fun placed hplaced => ?_
    rcases List.mem_filterMap.mp hplaced with ⟨location, -, hlies⟩
    exact (exists_of_placed? (validate_of_accepts haccepts) hlies).2
  · intro id events hevents
    apply haccepts.events id events
    rwa [← StartingItems.events_grant]
  · exact haccepts.names
  · exact haccepts.start

/-- What lies at some locations, given from the start, is what a recursive search gives
for them. -/
theorem count_startingOf_upFront (hrecursive : options.recursive = true)
    (locations : List Location) (id : WorldId) (item : ItemId) :
    (pathfinder.startingOf (pathfinder.upFront options locations)).count id item =
      (pathfinder.startingOf options).count id item + gifts options locations id item := by
  have hgifts : (locations.filterMap options.placed?).count ⟨id, item⟩ =
      gifts options locations id item := by
    rw [List.count_filterMap, gifts]
    apply List.countP_congr
    intro location _
    simp [SearchOptions.collected?_eq, hrecursive]
  rw [startingOf, upFront, Option.getD_some, StartingItems.count_grant, hgifts]

/-! ## Searches that start with what players have -/

/-- The search that collects nothing, but starts with what players have in a state. -/
def resuming (pathfinder : Pathfinder) (options : SearchOptions) (state : SearchState) :
    SearchOptions :=
  { options with
    recursive := false
    starting? := some
      ⟨state.worlds.map fun world => world.inventory.entries,
        (pathfinder.startingOf options).events⟩ }

/-- A player starts with as many of an item as there are in the state. -/
theorem count_startingOf_resuming {state : SearchState} {id : WorldId} {world : WorldState}
    (hworld : state.worlds[id]? = some world) (item : ItemId) :
    (pathfinder.startingOf (pathfinder.resuming options state)).count id item =
      world.inventory.count item := by
  simp only [startingOf, resuming, Option.getD_some, StartingItems.count, StartingItems.itemsOf,
    List.getElem?_map, hworld, Option.map_some]
  exact world.inventory.sum_entries item

end Pathfinder

end SeedLogic
