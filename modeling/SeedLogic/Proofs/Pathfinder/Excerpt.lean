import Mathlib.Data.List.Induction
import SeedLogic.Proofs.Pathfinder.Beginning

/-!
# Some of the players

When only some of the players are kept, they are numbered anew, in their order.  So are
their worlds, their starting items, their locations and what is placed among them
(`Pathfinder.restrict`, `SearchOptions.restrict`), and what was valid stays so
(`validate_restrict`).
-/

namespace SeedLogic

/-! ## Numbering anew -/

/-- How many numbers below a number are kept: its new number, if it is kept itself. -/
def rank (keep : Nat → Bool) : Nat → Nat
  | 0 => 0
  | id + 1 => rank keep id + (keep id).toNat

/-- The entries of a list at the places that are kept. -/
def excerpt {α : Type} (keep : Nat → Bool) (entries : List α) : List α :=
  (entries.zipIdx.filter fun entry => keep entry.2).map Prod.fst

section Rank

variable {keep : Nat → Bool}

theorem rank_le_rank {id other : Nat} (hle : id ≤ other) : rank keep id ≤ rank keep other := by
  induction other, hle using Nat.le_induction with
  | base => exact Nat.le_refl _
  | succ other _ ih => exact ih.trans (Nat.le_add_right _ _)

theorem rank_lt_rank {id other : Nat} (hkeep : keep id = true) (hlt : id < other) :
    rank keep id < rank keep other := by
  have hnext : rank keep (id + 1) = rank keep id + 1 := by rw [rank, hkeep, Bool.toNat_true]
  have hle : rank keep (id + 1) ≤ rank keep other := rank_le_rank hlt
  omega

/-- What is kept is told apart by its new number. -/
theorem rank_inj {id other : Nat} (hkeep : keep id = true) (hother : keep other = true) :
    rank keep id = rank keep other ↔ id = other := by
  constructor
  · intro hrank
    rcases Nat.lt_trichotomy id other with hlt | rfl | hlt
    · exact absurd hrank (Nat.ne_of_lt (rank_lt_rank hkeep hlt))
    · rfl
    · exact absurd hrank (Nat.ne_of_gt (rank_lt_rank hother hlt))
  · rintro rfl
    rfl

/-- Every new number is that of something that is kept. -/
theorem exists_rank_eq {bound place : Nat} (hplace : place < rank keep bound) :
    ∃ id < bound, keep id = true ∧ rank keep id = place := by
  induction bound with
  | zero => cases hplace
  | succ bound ih =>
      by_cases hearly : place < rank keep bound
      · rcases ih hearly with ⟨id, hlt, hid⟩
        exact ⟨id, Nat.lt_succ_of_lt hlt, hid⟩
      · rw [rank] at hplace
        have hkeep : keep bound = true := by
          by_contra hdropped
          rw [Bool.eq_false_iff.mpr hdropped] at hplace
          exact hearly hplace
        rw [hkeep, Bool.toNat_true] at hplace
        exact ⟨bound, Nat.lt_succ_self bound, hkeep, by omega⟩

end Rank

section Excerpt

variable {α : Type} {keep : Nat → Bool} {entries : List α}

theorem excerpt_concat (keep : Nat → Bool) (entries : List α) (last : α) :
    excerpt keep (entries ++ [last]) =
      excerpt keep entries ++ if keep entries.length then [last] else [] := by
  simp only [excerpt, List.zipIdx_append, List.zipIdx_singleton, Nat.zero_add, List.filter_append,
    List.map_append]
  cases hkeep : keep entries.length <;> simp [hkeep]

theorem length_excerpt (keep : Nat → Bool) (entries : List α) :
    (excerpt keep entries).length = rank keep entries.length := by
  induction entries using List.reverseRecOn with
  | nil => rfl
  | append_singleton entries last ih =>
      rw [excerpt_concat, List.length_append, ih, List.length_append, List.length_singleton, rank]
      cases keep entries.length <;> rfl

/-- What is kept has its new number in an excerpt. -/
theorem getElem?_excerpt {id : Nat} (hkeep : keep id = true) :
    (excerpt keep entries)[rank keep id]? = entries[id]? := by
  induction entries using List.reverseRecOn with
  | nil => rfl
  | append_singleton entries last ih =>
      have hlength := length_excerpt keep entries
      rw [excerpt_concat]
      rcases Nat.lt_trichotomy id entries.length with hlt | rfl | hgt
      · have hrank := rank_lt_rank hkeep hlt
        rw [List.getElem?_append_left (hlength ▸ hrank), List.getElem?_append_left hlt, ih]
      · rw [← hlength, if_pos hkeep, List.getElem?_concat_length, List.getElem?_concat_length]
      · have hrank : rank keep (entries ++ [last]).length ≤ rank keep id :=
          rank_le_rank (by rw [List.length_append]; exact hgt)
        rw [← length_excerpt, excerpt_concat] at hrank
        rw [List.getElem?_eq_none hrank, List.getElem?_eq_none]
        rw [List.length_append]
        exact hgt

/-- An entry of an excerpt is one at a place that is kept. -/
theorem getElem?_excerpt_eq_some {place : Nat} {entry : α} :
    (excerpt keep entries)[place]? = some entry ↔
      ∃ id, keep id = true ∧ rank keep id = place ∧ entries[id]? = some entry := by
  constructor
  · intro hentry
    have hlt := (List.getElem?_eq_some_iff.mp hentry).1
    rw [length_excerpt] at hlt
    rcases exists_rank_eq hlt with ⟨id, -, hkeep, rfl⟩
    exact ⟨id, hkeep, rfl, (getElem?_excerpt hkeep).symm.trans hentry⟩
  · rintro ⟨id, hkeep, rfl, hentry⟩
    exact (getElem?_excerpt hkeep).trans hentry

theorem excerpt_subset (keep : Nat → Bool) (entries : List α) : excerpt keep entries ⊆ entries := by
  intro entry hentry
  rcases List.mem_iff_getElem?.mp hentry with ⟨place, hplace⟩
  rcases getElem?_excerpt_eq_some.mp hplace with ⟨id, -, -, hid⟩
  exact List.mem_of_getElem? hid

/-- A list is an excerpt when it has the entries that are kept, by their new numbers. -/
theorem eq_excerpt {part : List α} (hlength : part.length = rank keep entries.length)
    (hpart : ∀ id entry, keep id = true → entries[id]? = some entry →
      part[rank keep id]? = some entry) : part = excerpt keep entries := by
  apply List.ext_getElem?
  intro place
  by_cases hlt : place < rank keep entries.length
  · rcases exists_rank_eq hlt with ⟨id, hid, hkeep, rfl⟩
    have hentry := List.getElem?_eq_getElem hid
    rw [getElem?_excerpt hkeep, hentry, hpart id _ hkeep hentry]
  · rw [List.getElem?_eq_none (by omega), List.getElem?_eq_none (by rw [length_excerpt]; omega)]

theorem excerpt_map {β : Type} (change : α → β) (entries : List α) :
    excerpt keep (entries.map change) = (excerpt keep entries).map change := by
  symm
  apply eq_excerpt
  · rw [List.length_map, length_excerpt, List.length_map]
  · intro id entry hkeep hentry
    rwa [List.getElem?_map, getElem?_excerpt hkeep, ← List.getElem?_map]

/-- A change at a place is seen in an excerpt if the place is kept. -/
theorem excerpt_modify (place : Nat) (change : α → α) (entries : List α) :
    excerpt keep (entries.modify place change) =
      if keep place = true then (excerpt keep entries).modify (rank keep place) change
      else excerpt keep entries := by
  symm
  apply eq_excerpt
  · split <;> simp [length_excerpt]
  · intro id entry hkeep hentry
    split
    case isTrue hplace =>
      rw [List.getElem?_modify, getElem?_excerpt hkeep]
      simpa only [List.getElem?_modify, rank_inj hplace hkeep] using hentry
    case isFalse hplace =>
      have hne : place ≠ id := by
        rintro rfl
        exact hplace hkeep
      rwa [getElem?_excerpt hkeep, ← List.getElem?_modify_ne _ _ hne]

end Excerpt

/-! ## Locations -/

namespace Location

/-- The location with the new number of its world. -/
def renumber (keep : WorldId → Bool) (location : Location) : Location :=
  ⟨rank keep location.world, location.check⟩

/-- The locations in worlds that are kept. -/
def restrict (keep : WorldId → Bool) (locations : List Location) : List Location :=
  (locations.filter fun location => keep location.world).map (renumber keep)

variable {keep : WorldId → Bool} {location other : Location}

theorem renumber_inj (hkeep : keep location.world = true) (hother : keep other.world = true) :
    location.renumber keep = other.renumber keep ↔ location = other := by
  cases location
  cases other
  simp [renumber, rank_inj hkeep hother]

theorem renumber_mem_restrict {locations : List Location} (hkeep : keep location.world = true) :
    location.renumber keep ∈ restrict keep locations ↔ location ∈ locations := by
  rw [restrict, List.mem_map]
  constructor
  · rintro ⟨other, hother, heq⟩
    rcases List.mem_filter.mp hother with ⟨hmem, hkept⟩
    exact (renumber_inj hkept hkeep).mp heq ▸ hmem
  · intro hmem
    exact ⟨location, List.mem_filter.mpr ⟨hmem, hkeep⟩, rfl⟩

theorem mem_restrict {locations : List Location} :
    location ∈ restrict keep locations ↔
      ∃ old ∈ locations, keep old.world = true ∧ old.renumber keep = location := by
  simp only [restrict, List.mem_map, List.mem_filter, and_assoc]

theorem restrict_append (keep : WorldId → Bool) (left right : List Location) :
    restrict keep (left ++ right) = restrict keep left ++ restrict keep right := by
  simp [restrict]

theorem restrict_cons_of_pos (hkeep : keep location.world = true) (locations : List Location) :
    restrict keep (location :: locations) = location.renumber keep :: restrict keep locations := by
  simp [restrict, hkeep]

theorem restrict_cons_of_neg (hkeep : ¬keep location.world = true) (locations : List Location) :
    restrict keep (location :: locations) = restrict keep locations := by
  simp [restrict, hkeep]

/-- Locations keep their order. -/
theorem compare_renumber (hkeep : keep location.world = true)
    (hlt : compare location other = .lt) :
    compare (location.renumber keep) (other.renumber keep) = .lt := by
  change compareLex (compareOn world) (compareOn check) location other = .lt at hlt
  change compareLex (compareOn world) (compareOn check) (location.renumber keep)
    (other.renumber keep) = .lt
  simp only [compareLex, compareOn, Ordering.then_eq_lt, Nat.compare_eq_lt, Nat.compare_eq_eq,
    renumber] at hlt ⊢
  rcases hlt with hworld | ⟨hworld, hcheck⟩
  · exact .inl (rank_lt_rank hkeep hworld)
  · exact .inr ⟨congrArg (rank keep) hworld, hcheck⟩

end Location

/-- The item with the new number of its player. -/
def PlayerItem.renumber (keep : WorldId → Bool) (placed : PlayerItem) : PlayerItem :=
  ⟨rank keep placed.player, placed.item⟩

/-! ## Placements and starting items -/

namespace Placement

/-- Is a placed item at a location and for a player that are kept? -/
def within (keep : WorldId → Bool) (entry : Location × PlayerItem) : Bool :=
  keep entry.1.world && keep entry.2.player

/-- What is placed in worlds that are kept, for players that are kept. -/
def restrict (keep : WorldId → Bool) (placement : Placement) : Placement where
  items :=
    { entries := (placement.items.entries.filter (within keep)).map fun entry =>
        (entry.1.renumber keep, entry.2.renumber keep)
      sorted := by
        rw [List.pairwise_map]
        apply (placement.items.sorted.filter _).imp_of_mem
        intro left right hleft _ hlt
        have hkeep := (Bool.and_eq_true_iff.mp (List.mem_filter.mp hleft).2).1
        exact Location.compare_renumber hkeep hlt }

variable {keep : WorldId → Bool} {placement : Placement}

theorem mem_restrict {entry : Location × PlayerItem} :
    entry ∈ (placement.restrict keep).items.entries ↔
      ∃ location placed, placement.get? location = some placed ∧ keep location.world = true ∧
        keep placed.player = true ∧
        entry = (location.renumber keep, placed.renumber keep) := by
  simp only [restrict, List.mem_map, List.mem_filter, within, Bool.and_eq_true, get?,
    Dict.find?_eq_some_iff]
  constructor
  · rintro ⟨⟨location, placed⟩, ⟨hmem, hlocation, hplayer⟩, rfl⟩
    exact ⟨location, placed, hmem, hlocation, hplayer, rfl⟩
  · rintro ⟨location, placed, hmem, hlocation, hplayer, rfl⟩
    exact ⟨(location, placed), ⟨hmem, hlocation, hplayer⟩, rfl⟩

/-- At a location that is kept lies what lay there, if its player is kept too. -/
theorem get?_restrict {location : Location} (hkeep : keep location.world = true) :
    (placement.restrict keep).get? (location.renumber keep) =
      ((placement.get? location).filter fun placed => keep placed.player).map
        (PlayerItem.renumber keep) := by
  apply Option.ext
  intro placed
  rw [get?, Dict.find?_eq_some_iff, mem_restrict, Option.map_eq_some_iff]
  simp only [Option.filter_eq_some_iff]
  constructor
  · rintro ⟨other, item, hitem, hother, hplayer, heq⟩
    rw [Prod.mk.injEq, Location.renumber_inj hkeep hother] at heq
    rcases heq with ⟨rfl, rfl⟩
    exact ⟨item, ⟨hitem, hplayer⟩, rfl⟩
  · rintro ⟨item, ⟨hitem, hplayer⟩, rfl⟩
    exact ⟨location, item, hitem, hkeep, hplayer, rfl⟩

end Placement

namespace StartingItems

/-- What the players that are kept start with. -/
def restrict (keep : WorldId → Bool) (starting : StartingItems) : StartingItems :=
  ⟨excerpt keep starting.items, excerpt keep starting.events⟩

variable {keep : WorldId → Bool} (starting : StartingItems) {id : WorldId}

theorem itemsOf_restrict (hkeep : keep id = true) :
    (starting.restrict keep).itemsOf (rank keep id) = starting.itemsOf id := by
  rw [itemsOf, restrict, getElem?_excerpt hkeep, itemsOf]

theorem eventsOf_restrict (hkeep : keep id = true) :
    (starting.restrict keep).eventsOf (rank keep id) = starting.eventsOf id := by
  rw [eventsOf, restrict, getElem?_excerpt hkeep, eventsOf]

end StartingItems

/-! ## Searches -/

/-- The same search for the players that are kept. -/
def SearchOptions.restrict (keep : WorldId → Bool) (options : SearchOptions) : SearchOptions :=
  { options with
    items? := options.items?.map (Placement.restrict keep)
    starting? := options.starting?.map (StartingItems.restrict keep)
    forbidden := Location.restrict keep options.forbidden }

namespace Pathfinder

/-- A solver for the players that are kept, with a goal of its own. -/
def restrict (pathfinder : Pathfinder) (keep : WorldId → Bool) (goal : Goal) : Pathfinder :=
  ⟨excerpt keep pathfinder.players, pathfinder.starting.restrict keep, goal⟩

variable {pathfinder : Pathfinder} {keep : WorldId → Bool} {goal : Goal}
  {start? : Option (List String)} {options : SearchOptions}

theorem startingOf_restrict :
    (pathfinder.restrict keep goal).startingOf (options.restrict keep) =
      (pathfinder.startingOf options).restrict keep := by
  cases hstarting : options.starting? <;>
    simp [startingOf, SearchOptions.restrict, restrict, hstarting]

theorem world?_restrict {id : WorldId} (hkeep : keep id = true) :
    (pathfinder.restrict keep goal).world? (rank keep id) = pathfinder.world? id := by
  rw [world?, restrict, getElem?_excerpt hkeep, world?]

theorem hasLocation_restrict {location : Location} (hkeep : keep location.world = true) :
    (pathfinder.restrict keep goal).hasLocation (location.renumber keep) =
      pathfinder.hasLocation location := by
  rw [hasLocation, Location.renumber, world?_restrict hkeep, hasLocation]

theorem hasItem_restrict {placed : PlayerItem} (hkeep : keep placed.player = true) :
    (pathfinder.restrict keep goal).hasItem (placed.renumber keep) =
      pathfinder.hasItem placed := by
  rw [hasItem, PlayerItem.renumber, world?_restrict hkeep, hasItem]

/-- What some of the players start with is valid among them. -/
theorem validate_starting_restrict {starting : StartingItems}
    (hvalid : starting.validate pathfinder.worlds = .ok ()) :
    (starting.restrict keep).validate (pathfinder.restrict keep goal).worlds = .ok () := by
  rw [validate_starting_eq_ok_iff] at hvalid ⊢
  constructor
  · intro place entries hentries
    rcases getElem?_excerpt_eq_some.mp hentries with ⟨id, hkeep, rfl, hold⟩
    rw [world?_restrict hkeep]
    exact hvalid.1 id entries hold
  · intro place events hevents
    rcases getElem?_excerpt_eq_some.mp hevents with ⟨id, hkeep, rfl, hold⟩
    rw [world?_restrict hkeep]
    exact hvalid.2 id events hold

/-- Options that are valid are so among some of the players. -/
theorem validate_restrict (hvalid : pathfinder.validate options = .ok ()) :
    (pathfinder.restrict keep goal).validate (options.restrict keep) = .ok () := by
  rw [validate_eq_ok_iff] at hvalid ⊢
  rcases hvalid with ⟨hplacement, hforbidden, hstarting⟩
  constructor
  · intro part hpart entry hentry
    rcases Option.map_eq_some_iff.mp hpart with ⟨placement, hitems, rfl⟩
    rcases Placement.mem_restrict.mp hentry with
      ⟨location, placed, hplaced, hkeep, hplayer, rfl⟩
    rw [hasLocation_restrict hkeep, hasItem_restrict hplayer]
    exact hplacement placement hitems _ (Dict.find?_eq_some_iff.mp hplaced)
  constructor
  · intro location hlocation
    rcases Location.mem_restrict.mp hlocation with ⟨old, hold, hkeep, rfl⟩
    rw [hasLocation_restrict hkeep]
    exact hforbidden old hold
  · intro part hpart
    rcases Option.map_eq_some_iff.mp hpart with ⟨starting, hown, rfl⟩
    exact validate_starting_restrict (hstarting starting hown)

end Pathfinder

end SeedLogic
