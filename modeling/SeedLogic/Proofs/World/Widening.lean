import SeedLogic.World

/-!
# Worlds with more ways

A world is wider than another when each area of the other has every location, exit and
event there, and possibly more.  Changing areas so that they have more gives wider worlds
(`le_withArea`).
-/

namespace SeedLogic

namespace Area

/-- Every location, exit and event of an area is one of a wider area. -/
protected structure Le (narrow wide : Area) : Prop where
  locations : narrow.locations ⊆ wide.locations
  exits : narrow.exits ⊆ wide.exits
  events : narrow.events ⊆ wide.events

instance : LE Area :=
  ⟨Area.Le⟩

theorem le_refl (area : Area) : area ≤ area :=
  ⟨List.Subset.refl _, List.Subset.refl _, List.Subset.refl _⟩

theorem le_trans {first second third : Area} (hearly : first ≤ second) (hlate : second ≤ third) :
    first ≤ third :=
  ⟨List.Subset.trans hearly.locations hlate.locations,
    List.Subset.trans hearly.exits hlate.exits, List.Subset.trans hearly.events hlate.events⟩

end Area

namespace World

/-- Every area of a world is, under its number, wider in a wider world, which has no fewer
checks and events. -/
protected structure Le (narrow wide : World) : Prop where
  areas : ∀ {id : AreaId} {area : Area}, narrow.areas[id]? = some area →
    ∃ wider, wide.areas[id]? = some wider ∧ area ≤ wider
  checks : narrow.checks.length ≤ wide.checks.length
  events : narrow.eventCount ≤ wide.eventCount

instance : LE World :=
  ⟨World.Le⟩

theorem le_refl (world : World) : world ≤ world :=
  ⟨fun {_ area} harea => ⟨area, harea, area.le_refl⟩, Nat.le_refl _, Nat.le_refl _⟩

theorem le_trans {first second third : World} (hearly : first ≤ second)
    (hlate : second ≤ third) : first ≤ third := by
  refine ⟨fun {id area} harea => ?_, Nat.le_trans hearly.checks hlate.checks,
    Nat.le_trans hearly.events hlate.events⟩
  rcases hearly.areas harea with ⟨wider, hwider, hle⟩
  rcases hlate.areas hwider with ⟨widest, hwidest, hle'⟩
  exact ⟨widest, hwidest, Area.le_trans hle hle'⟩

/-- An area that is changed to a wider one makes the world wider. -/
theorem le_withArea (world : World) (id : AreaId) {change : Area → Area}
    (hchange : ∀ area, area ≤ change area) : world ≤ world.withArea id change := by
  refine ⟨fun {other area} harea => ?_, Nat.le_refl _, Nat.le_refl _⟩
  by_cases hchanged : id = other
  · refine ⟨change area, ?_, hchange area⟩
    simp [withArea, hchanged, harea]
  · refine ⟨area, ?_, area.le_refl⟩
    simp [withArea, hchanged, harea]

variable {narrow wide : World}

theorem length_areas_le (hle : narrow ≤ wide) : narrow.areas.length ≤ wide.areas.length := by
  apply Nat.le_of_not_lt
  intro hlt
  rcases hle.areas (List.getElem?_eq_getElem hlt) with ⟨wider, hwider, -⟩
  rw [List.getElem?_eq_none (Nat.le_refl _)] at hwider
  cases hwider

theorem exists_entry_of_le (hle : narrow ≤ wide) {entry : Area × AreaId}
    (hentry : entry ∈ narrow.areas.zipIdx) :
    ∃ wider, (wider, entry.2) ∈ wide.areas.zipIdx ∧ entry.1 ≤ wider := by
  rcases hle.areas (List.mk_mem_zipIdx_iff_getElem?.mp hentry) with ⟨wider, hwider, harea⟩
  exact ⟨wider, List.mk_mem_zipIdx_iff_getElem?.mpr hwider, harea⟩

end World

end SeedLogic
