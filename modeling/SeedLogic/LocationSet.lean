import SeedLogic.Dict
import SeedLogic.Location

/-!
# Sets of locations

Finite sets of locations, listed in ascending order.
-/

namespace SeedLogic

/-- A finite set of locations. -/
abbrev LocationSet :=
  Dict Location Unit

namespace LocationSet

/-- No location. -/
def empty : LocationSet :=
  Dict.empty

/-- The set with one location more. -/
def insert (set : LocationSet) (location : Location) : LocationSet :=
  Dict.insert set location ()

/-- The set of listed locations. -/
def ofList (locations : List Location) : LocationSet :=
  locations.foldl insert empty

/-- The locations of a set, ascending. -/
def toList (set : LocationSet) : List Location :=
  Dict.keys set

/-- Is the location in the set? -/
def has (set : LocationSet) (location : Location) : Bool :=
  Dict.contains set location

/-- The locations of a set that a test accepts. -/
def keep (set : LocationSet) (test : Location → Bool) : LocationSet :=
  ⟨set.entries.filter fun entry => test entry.1, set.sorted.filter _⟩

/-- A set without locations. -/
def isEmpty (set : LocationSet) : Bool :=
  set.entries.isEmpty

/-- A set has a location after an insertion when that was inserted or in it before. -/
theorem has_insert (set : LocationSet) (location other : Location) :
    (set.insert location).has other = (other == location || set.has other) := by
  simp only [has, insert, Dict.contains, Dict.find?_insert]
  by_cases heq : other = location
  · simp [heq]
  · have hne : compare other location ≠ .eq :=
      fun hcompare => heq (Std.LawfulEqCmp.eq_of_compare hcompare)
    simp [heq, hne]

/-- The set of listed locations has those locations. -/
theorem has_ofList {locations : List Location} {location : Location} :
    (ofList locations).has location = true ↔ location ∈ locations := by
  have hfold : ∀ (locations : List Location) (set : LocationSet),
      (locations.foldl insert set).has location = true ↔
        location ∈ locations ∨ set.has location = true := by
    intro locations
    induction locations with
    | nil => simp
    | cons first locations ih =>
        intro set
        rw [List.foldl_cons, ih, has_insert, Bool.or_eq_true, beq_iff_eq, List.mem_cons]
        constructor
        · rintro (hrest | hfirst | hold)
          · exact .inl (.inr hrest)
          · exact .inl (.inl hfirst)
          · exact .inr hold
        · rintro ((hfirst | hrest) | hold)
          · exact .inr (.inl hfirst)
          · exact .inl hrest
          · exact .inr (.inr hold)
  have hempty : empty.has location = false := rfl
  rw [ofList, hfold, hempty]
  simp

end LocationSet

end SeedLogic
