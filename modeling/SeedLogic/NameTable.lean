/-!
# Name tables

A `NameTable` numbers names in the order in which they were first added.  A
number, once given, stays: adding only appends (`keys_add`), and looking up a
number and a name are inverse (`get?_eq_some_iff`).
-/

namespace SeedLogic

/-- Distinct names, numbered by their place. -/
structure NameTable (κ : Type) [DecidableEq κ] where
  keys : List κ
  nodup : keys.Nodup

namespace NameTable

variable {κ : Type} [DecidableEq κ]

/-- The table without names. -/
def empty : NameTable κ :=
  ⟨[], .nil⟩

instance : Inhabited (NameTable κ) :=
  ⟨empty⟩

/-- Number of names. -/
def size (table : NameTable κ) : Nat :=
  table.keys.length

/-- The number of a name, or the size of the table when it has none. -/
def idOf (table : NameTable κ) (key : κ) : Nat :=
  table.keys.idxOf key

/-- The number of a name. -/
def get? (table : NameTable κ) (key : κ) : Option Nat :=
  if key ∈ table.keys then some (table.idOf key) else none

/-- Add a name, unless the table has it. -/
def add (table : NameTable κ) (key : κ) : NameTable κ :=
  if hmem : key ∈ table.keys then table
  else
    ⟨table.keys ++ [key], by
      refine List.nodup_append.mpr ⟨table.nodup, by simp, ?_⟩
      intro old hold new hnew
      rw [List.mem_singleton.mp hnew]
      exact fun heq => hmem (heq ▸ hold)⟩

@[simp]
theorem keys_empty : (empty : NameTable κ).keys = [] :=
  rfl

/-- Adding appends a new name and leaves a table with the name alone. -/
theorem keys_add (table : NameTable κ) (key : κ) :
    (table.add key).keys =
      if key ∈ table.keys then table.keys else table.keys ++ [key] := by
  unfold add
  split <;> simp_all

@[simp]
theorem mem_keys_add {table : NameTable κ} {key other : κ} :
    other ∈ (table.add key).keys ↔ other ∈ table.keys ∨ other = key := by
  rw [keys_add]
  split
  · constructor
    · exact .inl
    · rintro (hmem | rfl) <;> assumption
  · simp

/-- Earlier names keep their places. -/
theorem keys_isPrefix_add (table : NameTable κ) (key : κ) :
    table.keys <+: (table.add key).keys := by
  rw [keys_add]
  split
  · exact List.prefix_refl _
  · exact List.prefix_append _ _

theorem add_of_mem {table : NameTable κ} {key : κ} (hmem : key ∈ table.keys) :
    table.add key = table := by
  simp [add, hmem]

/-- A name stands at its number. -/
theorem getElem?_idOf {table : NameTable κ} {key : κ} (hmem : key ∈ table.keys) :
    table.keys[table.idOf key]? = some key := by
  rw [idOf, List.getElem?_eq_getElem (List.idxOf_lt_length_of_mem hmem), List.getElem_idxOf]

/-- A name's number is its place. -/
theorem get?_eq_some_iff {table : NameTable κ} {key : κ} {id : Nat} :
    table.get? key = some id ↔ table.keys[id]? = some key := by
  unfold get?
  constructor
  · intro hget
    split at hget
    case isTrue hmem =>
      cases hget
      exact getElem?_idOf hmem
    case isFalse => cases hget
  · intro hkey
    rcases List.getElem?_eq_some_iff.mp hkey with ⟨hlt, rfl⟩
    rw [if_pos (List.getElem_mem hlt), idOf, table.nodup.idxOf_getElem]

theorem get?_eq_none_iff {table : NameTable κ} {key : κ} :
    table.get? key = none ↔ key ∉ table.keys := by
  unfold get?
  split <;> simp_all

/-- A name keeps its number when more names are appended. -/
theorem idOf_eq_of_isPrefix {old new : NameTable κ} {key : κ}
    (hstart : old.keys <+: new.keys) (hmem : key ∈ old.keys) :
    new.idOf key = old.idOf key := by
  rcases hstart with ⟨added, hadded⟩
  unfold idOf
  rw [← hadded, List.idxOf_append, if_pos hmem]

end NameTable

end SeedLogic
