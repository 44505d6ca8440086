import SeedLogic.Proofs.Formula.Truth
import SeedLogic.Proofs.Requirement.Atoms
import SeedLogic.Proofs.Requirement.Truth

/-!
# Meaning by name

Whether a requirement is true depends on what a reading says about its atoms alone
(`Requirement.holds_congr`).  So what a formula compiles to is true under a reading when the
formula is true under what its names stand for there (`Formula.holds_compile_iff`).
-/

namespace SeedLogic

namespace Requirement

/-- Two readings say the same about an atom. -/
def Atom.Agrees (left right : Reading) : Atom → Prop
  | .item id _ => left.count id = right.count id
  | .event id => id ∈ left.events ↔ id ∈ right.events
  | .setting id => id ∈ left.settings ↔ id ∈ right.settings
  | .quorum _ => True

section Agrees

variable {left right : Reading}

mutual

/-- Readings that say the same about its atoms agree about a requirement. -/
theorem holds_congr : ∀ requirement : Requirement,
    (∀ atom ∈ requirement.atoms, atom.Agrees left right) →
      (requirement.Holds left ↔ requirement.Holds right)
  | .const _, _ => by rw [Holds, Holds]
  | .hasItem item count, hagree => by
      have hcount : left.count item = right.count item :=
        hagree (.item item count) (by simp [atoms])
      rw [Holds, Holds, hcount]
  | .hasEvent event, hagree => by
      have hevent : event ∈ left.events ↔ event ∈ right.events :=
        hagree (.event event) (by simp [atoms])
      rw [Holds, Holds, hevent]
  | .setting id, hagree => by
      have hsetting : id ∈ left.settings ↔ id ∈ right.settings :=
        hagree (.setting id) (by simp [atoms])
      rw [Holds, Holds, hsetting]
  | .not operand, hagree => by
      rw [atoms] at hagree
      rw [Holds, Holds, holds_congr operand hagree]
  | .and operands, hagree => by
      rw [atoms] at hagree
      rw [Holds, Holds, allHold_congr operands hagree]
  | .or operands, hagree => by
      rw [atoms] at hagree
      rw [Holds, Holds, anyHolds_congr operands hagree]
  | .atLeast count operands, hagree => by
      rw [atoms, List.forall_mem_cons] at hagree
      rw [Holds, Holds, manyHold_congr operands count hagree.2]

theorem allHold_congr : ∀ operands : List Requirement,
    (∀ atom ∈ atomsOfAll operands, atom.Agrees left right) →
      (AllHold left operands ↔ AllHold right operands)
  | [], _ => by rw [AllHold, AllHold]
  | operand :: operands, hagree => by
      rw [atomsOfAll, List.forall_mem_append] at hagree
      rw [AllHold, AllHold, holds_congr operand hagree.1, allHold_congr operands hagree.2]

theorem anyHolds_congr : ∀ operands : List Requirement,
    (∀ atom ∈ atomsOfAll operands, atom.Agrees left right) →
      (AnyHolds left operands ↔ AnyHolds right operands)
  | [], _ => by rw [AnyHolds, AnyHolds]
  | operand :: operands, hagree => by
      rw [atomsOfAll, List.forall_mem_append] at hagree
      rw [AnyHolds, AnyHolds, holds_congr operand hagree.1, anyHolds_congr operands hagree.2]

theorem manyHold_congr : ∀ (operands : List Requirement) (count : Nat),
    (∀ atom ∈ atomsOfAll operands, atom.Agrees left right) →
      (ManyHold left count operands ↔ ManyHold right count operands)
  | operands, 0, _ => iff_of_true (manyHold_zero left operands) (manyHold_zero right operands)
  | [], count + 1, _ => by rw [ManyHold, ManyHold]
  | operand :: operands, count + 1, hagree => by
      rw [atomsOfAll, List.forall_mem_append] at hagree
      rw [ManyHold, ManyHold, holds_congr operand hagree.1, manyHold_congr operands count hagree.2,
        manyHold_congr operands (count + 1) hagree.2]

end

end Agrees

end Requirement

/-! ## Readings and views -/

namespace Symbols

/-- A reading says about the numbers of symbols what a view says about their names. -/
structure Agrees (symbols : Symbols) (reading : Reading) (view : View) : Prop where
  count : ∀ name ∈ symbols.items.keys,
    reading.count (symbols.items.idOf name) = view.count name
  event : ∀ name ∈ symbols.events.keys,
    symbols.events.idOf name ∈ reading.events ↔ view.event name = true
  setting : ∀ key ∈ symbols.settings.keys,
    symbols.settings.idOf key ∈ reading.settings ↔ view.setting key = true

/-- A situation in which the names of symbols stand for what a view says. -/
def situation (symbols : Symbols) (view : View) : Situation where
  inventory := ⟨(symbols.items.keys.map view.count).toArray⟩
  events := ⟨(symbols.events.keys.map view.event).toArray⟩
  settings := ⟨(symbols.settings.keys.map view.setting).toArray⟩

theorem shows_situation (symbols : Symbols) (view : View) :
    symbols.Shows (symbols.situation view) view := by
  constructor
  · intro name hmem
    simp [situation, Inventory.count, NameTable.getElem?_idOf hmem]
  · intro name hmem
    simp [situation, Flags.has, NameTable.getElem?_idOf hmem]
  · intro key hmem
    simp [situation, Flags.has, NameTable.getElem?_idOf hmem]

end Symbols

namespace Formula

variable {symbols : Symbols} {reading : Reading} {view : View}

/-- What a formula compiles to is true when the formula is, by what its names stand for. -/
theorem holds_compile_iff (hagrees : symbols.Agrees reading view) {formula : Formula}
    (hknown : formula.Known symbols) :
    (formula.compile symbols).Holds reading ↔ formula.truth view = true := by
  have hshows := symbols.shows_situation view
  have hatoms : ∀ atom ∈ (formula.compile symbols).atoms,
      atom.Agrees reading (symbols.situation view).reading := by
    intro atom hatom
    rcases formula.exists_term_of_mem_atoms hatom with ⟨term, hterm, rfl⟩
    have hmention : ∀ entry, term.mention? = some entry → symbols.Knows entry := by
      intro entry hentry
      apply hknown
      rw [mentions_eq_filterMap]
      exact List.mem_filterMap.mpr ⟨term, hterm, hentry⟩
    cases term with
    | item name count =>
        have hmem : name ∈ symbols.items.keys := hmention _ rfl
        exact (hagrees.count name hmem).trans (hshows.count name hmem).symm
    | event name =>
        have hmem : name ∈ symbols.events.keys := hmention _ rfl
        have hevent := hshows.event name hmem
        exact (hagrees.event name hmem).trans (by rw [← hevent]; rfl)
    | setting key =>
        have hmem : key ∈ symbols.settings.keys := hmention _ rfl
        have hsetting := hshows.setting key hmem
        exact (hagrees.setting key hmem).trans (by rw [← hsetting]; rfl)
    | quorum count => trivial
  rw [Requirement.holds_congr _ hatoms, Requirement.holds_reading_iff,
    eval_compile_of_shows hshows formula hknown]

end Formula

end SeedLogic
