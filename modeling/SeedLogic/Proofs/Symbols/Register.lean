import SeedLogic.Symbols

/-!
# Names in a vector and a map

A register keeps names in a vector and, beside it, a map from each name to its number.  Both
are written whenever a name is added (`Register.add`), and they stay in step: they answer
like a table of names, whose numbers are the places of the names (`Registers.inStep`).
-/

namespace SeedLogic

/-! ## Tables -/

/-- Names and numbers are inverse: no name stands twice, each has the number of its place,
and no other has one. -/
structure Indexed {κ : Type} (keys : List κ) (get? : κ → Option Nat) : Prop where
  nodup : keys.Nodup
  numbered : ∀ id key, keys[id]? = some key → get? key = some id
  unknown : ∀ key, key ∉ keys → get? key = none

namespace NameTable

variable {κ : Type} [DecidableEq κ]

theorem indexed (table : NameTable κ) : Indexed table.keys table.get? where
  nodup := table.nodup
  numbered _ _ := get?_eq_some_iff.mpr
  unknown _ := get?_eq_none_iff.mpr

/-- A new name gets the next number, and all others keep theirs. -/
theorem get?_add_of_not_mem {table : NameTable κ} {key : κ} (hmem : key ∉ table.keys)
    (other : κ) :
    (table.add key).get? other = if other = key then some table.size else table.get? other := by
  have hkeys : (table.add key).keys = table.keys ++ [key] := by
    rw [keys_add, if_neg hmem]
  split
  case isTrue heq =>
    rw [heq, get?_eq_some_iff, hkeys]
    exact List.getElem?_concat_length
  case isFalse hne =>
    cases hget : table.get? other with
    | none =>
        rw [get?_eq_none_iff] at hget ⊢
        rw [mem_keys_add, not_or]
        exact ⟨hget, hne⟩
    | some id =>
        rw [get?_eq_some_iff] at hget ⊢
        rw [hkeys, List.getElem?_append_left (List.getElem?_eq_some_iff.mp hget).1, hget]

end NameTable

/-! ## Registers -/

/-- Names in a vector, and a map from each of them to its number. -/
structure Register (κ : Type) where
  keys : List κ
  numbers : List (κ × Nat)

namespace Register

variable {κ : Type} [DecidableEq κ]

/-- The register without names. -/
def empty : Register κ :=
  ⟨[], []⟩

/-- The number of a name, as the map has it. -/
def get? (register : Register κ) (key : κ) : Option Nat :=
  register.numbers.lookup key

/-- Add a name to the vector and to the map, unless the map has it. -/
def add (register : Register κ) (key : κ) : Register κ :=
  match register.get? key with
  | some _ => register
  | none => ⟨register.keys ++ [key], (key, register.keys.length) :: register.numbers⟩

/-- A register answers like a table. -/
structure InStep (register : Register κ) (table : NameTable κ) : Prop where
  keys : register.keys = table.keys
  get? : ∀ key, register.get? key = table.get? key

theorem inStep_empty : (empty : Register κ).InStep .empty :=
  ⟨rfl, fun _ => rfl⟩

/-- What is added to both keeps them in step. -/
theorem InStep.add {register : Register κ} {table : NameTable κ}
    (hstep : register.InStep table) (key : κ) : (register.add key).InStep (table.add key) := by
  have hget := hstep.get? key
  unfold Register.add
  by_cases hmem : key ∈ table.keys
  · rw [NameTable.get?, if_pos hmem] at hget
    rw [hget, NameTable.add_of_mem hmem]
    exact hstep
  · rw [NameTable.get?, if_neg hmem] at hget
    rw [hget]
    refine ⟨?_, fun other => ?_⟩
    · rw [NameTable.keys_add, if_neg hmem, hstep.keys]
    · rw [NameTable.get?_add_of_not_mem hmem, ← hstep.get? other, hstep.keys]
      simp only [Register.get?, List.lookup_cons]
      by_cases hother : other = key
      · rw [if_pos hother, beq_iff_eq.mpr hother]
        rfl
      · rw [if_neg hother, beq_eq_false_iff_ne.mpr hother]

theorem InStep.indexed {register : Register κ} {table : NameTable κ}
    (hstep : register.InStep table) : Indexed register.keys register.get? := by
  rw [hstep.keys, funext hstep.get?]
  exact table.indexed

end Register

/-! ## Symbols -/

/-- The items, events and settings that requirements mention, in registers. -/
structure Registers where
  items : Register String
  events : Register String
  settings : Register SettingKey

namespace Registers

def empty : Registers :=
  ⟨.empty, .empty, .empty⟩

/-- Register the name of a mention. -/
def mention (registers : Registers) : Mention → Registers
  | .item name => { registers with items := registers.items.add name }
  | .event name => { registers with events := registers.events.add name }
  | .setting key => { registers with settings := registers.settings.add key }

/-- Register the names of several mentions in order. -/
def mentionAll (registers : Registers) (mentions : List Mention) : Registers :=
  mentions.foldl mention registers

/-- Every register answers like the table of the same names. -/
structure InStep (registers : Registers) (symbols : Symbols) : Prop where
  items : registers.items.InStep symbols.items
  events : registers.events.InStep symbols.events
  settings : registers.settings.InStep symbols.settings

variable {registers : Registers} {symbols : Symbols}

theorem InStep.mention (hstep : registers.InStep symbols) (entry : Mention) :
    (registers.mention entry).InStep (symbols.mention entry) := by
  cases entry with
  | item name => exact ⟨hstep.items.add name, hstep.events, hstep.settings⟩
  | event name => exact ⟨hstep.items, hstep.events.add name, hstep.settings⟩
  | setting key => exact ⟨hstep.items, hstep.events, hstep.settings.add key⟩

theorem InStep.mentionAll (hstep : registers.InStep symbols) (mentions : List Mention) :
    (registers.mentionAll mentions).InStep (symbols.mentionAll mentions) := by
  induction mentions generalizing registers symbols with
  | nil => exact hstep
  | cons entry mentions ih => exact ih (hstep.mention entry)

/-- Whatever is mentioned, registers and tables stay in step. -/
theorem inStep (mentions : List Mention) :
    (empty.mentionAll mentions).InStep (Symbols.empty.mentionAll mentions) :=
  InStep.mentionAll ⟨Register.inStep_empty, Register.inStep_empty, Register.inStep_empty⟩ mentions

end Registers

end SeedLogic
