/-!
# Flags and inventories

`Flags` remembers which numbers of a table are set, and `Inventory` counts items.
Both are read by number and give the neutral answer for a number they have never
seen; the lemmas say what each operation does to such a reading.
-/

namespace SeedLogic

/-- Which numbers of a table of fixed size are set. -/
structure Flags where
  bits : Array Bool
  deriving DecidableEq, Repr

namespace Flags

/-- Nothing set, in a table of a given size. -/
def clear (size : Nat) : Flags :=
  ⟨Array.replicate size false⟩

/-- Size of the table. -/
def size (flags : Flags) : Nat :=
  flags.bits.size

/-- Is the number set? -/
def has (flags : Flags) (id : Nat) : Bool :=
  flags.bits[id]?.getD false

/-- Set a number of the table. -/
def mark (flags : Flags) (id : Nat) : Flags :=
  ⟨flags.bits.setIfInBounds id true⟩

/-- The numbers that are set, ascending. -/
def toList (flags : Flags) : List Nat :=
  (List.range flags.size).filter flags.has

/-- How many numbers are set. -/
def count (flags : Flags) : Nat :=
  flags.bits.count true

@[simp]
theorem size_clear (size : Nat) : (clear size).size = size := by
  simp [clear, Flags.size]

@[simp]
theorem has_clear (size id : Nat) : (clear size).has id = false := by
  simp only [clear, has, Array.getElem?_replicate]
  split <;> rfl

@[simp]
theorem size_mark (flags : Flags) (id : Nat) : (flags.mark id).size = flags.size := by
  simp [mark, size]

/-- Setting a number changes that number alone. -/
theorem has_mark (flags : Flags) (id other : Nat) :
    (flags.mark id).has other = (flags.has other || (id == other && id < flags.size)) := by
  simp only [mark, has, size, Array.getElem?_setIfInBounds]
  by_cases heq : id = other
  · subst heq
    by_cases hlt : id < flags.bits.size <;> simp [hlt]
  · simp [heq]

theorem lt_size_of_has {flags : Flags} {id : Nat} (hhas : flags.has id = true) :
    id < flags.size := by
  unfold has at hhas
  cases hget : flags.bits[id]? with
  | none => simp [hget] at hhas
  | some value => exact (Array.getElem?_eq_some_iff.mp hget).1

@[simp]
theorem mem_toList {flags : Flags} {id : Nat} : id ∈ flags.toList ↔ flags.has id = true := by
  simp only [toList, List.mem_filter, List.mem_range]
  exact ⟨And.right, fun hhas => ⟨lt_size_of_has hhas, hhas⟩⟩

theorem count_le_size (flags : Flags) : flags.count ≤ flags.size :=
  Array.count_le_size

end Flags

/-- How many of each item a player has. -/
structure Inventory where
  counts : Array Nat
  deriving DecidableEq, Repr

namespace Inventory

/-- Counts are 32 bits wide, and what does not fit wraps around. -/
def modulus : Nat :=
  Nat.pow 2 32

/-- No items, in a table of a given size. -/
def empty (size : Nat) : Inventory :=
  ⟨Array.replicate size 0⟩

/-- How many of an item there are. -/
def count (inventory : Inventory) (item : Nat) : Nat :=
  inventory.counts[item]?.getD 0

/-- Add some of an item.  The table grows when the item is new to it. -/
def add (inventory : Inventory) (item amount : Nat) : Inventory :=
  let missing := item + 1 - inventory.counts.size
  ⟨(inventory.counts ++ Array.replicate missing 0).modify item fun count =>
    (count + amount) % modulus⟩

/-- Add one of an item. -/
def collect (inventory : Inventory) (item : Nat) : Inventory :=
  inventory.add item 1

@[simp]
theorem count_empty (size item : Nat) : (empty size).count item = 0 := by
  simp only [empty, count, Array.getElem?_replicate]
  split <;> rfl

/-- Adding changes the count of that item alone. -/
theorem count_add (inventory : Inventory) (item amount other : Nat) :
    (inventory.add item amount).count other =
      if item = other then (inventory.count other + amount) % modulus
      else inventory.count other := by
  simp only [add, count, Array.getElem?_modify, Array.getElem?_append,
    Array.getElem?_replicate]
  by_cases heq : item = other
  · subst heq
    by_cases hlt : item < inventory.counts.size
    · simp [hlt]
    · have hmissing : item - inventory.counts.size < item + 1 - inventory.counts.size := by
        omega
      simp [hlt, hmissing]
  · by_cases hlt : other < inventory.counts.size
    · simp [heq, hlt]
    · simp only [heq, hlt, if_false]
      split <;> simp [hlt]

end Inventory

end SeedLogic
