import Mathlib.Data.Set.Basic
import SeedLogic.Requirement.Evaluation

/-!
# Truth of requirements

A `Reading` says how many there are of each item, which events have been obtained
and which settings are on, without the tables that a situation keeps them in.
`Holds` is the meaning of a requirement under a reading, and evaluation decides it
(`holds_reading_iff`).  Requirements in which items and events lie under an even
number of negations stay true when there are more of them (`Positive.holds_of_le`).
-/

namespace SeedLogic

/-- What requirements are about. -/
@[ext]
structure Reading where
  count : Nat → Nat
  events : Set Nat
  settings : Set Nat

namespace Reading

/-- At least as many items and events, under the same settings. -/
protected structure Le (small large : Reading) : Prop where
  count : ∀ item, small.count item ≤ large.count item
  events : small.events ⊆ large.events
  settings : small.settings = large.settings

instance : LE Reading :=
  ⟨Reading.Le⟩

theorem le_refl (reading : Reading) : reading ≤ reading :=
  ⟨fun _ => Nat.le_refl _, Set.Subset.refl _, rfl⟩

theorem le_trans {first second third : Reading} (hearly : first ≤ second)
    (hlate : second ≤ third) : first ≤ third :=
  ⟨fun item => (hearly.count item).trans (hlate.count item),
    hearly.events.trans hlate.events, hearly.settings.trans hlate.settings⟩

theorem le_antisymm {left right : Reading} (hleft : left ≤ right) (hright : right ≤ left) :
    left = right := by
  apply Reading.ext
  · funext item
    exact Nat.le_antisymm (hleft.count item) (hright.count item)
  · exact Set.Subset.antisymm hleft.events hright.events
  · exact hleft.settings

end Reading

/-- What a situation says. -/
def Situation.reading (situation : Situation) : Reading where
  count := situation.inventory.count
  events := {event | situation.events.has event = true}
  settings := {setting | situation.settings.has setting = true}

namespace Requirement

mutual

/-- Is the requirement true? -/
def Holds (reading : Reading) : Requirement → Prop
  | .const value => value = true
  | .hasItem item count => count ≤ reading.count item
  | .hasEvent event => event ∈ reading.events
  | .not operand => ¬Holds reading operand
  | .and operands => AllHold reading operands
  | .or operands => AnyHolds reading operands
  | .atLeast count operands => ManyHold reading count operands
  | .setting id => id ∈ reading.settings

/-- Are all requirements true? -/
def AllHold (reading : Reading) : List Requirement → Prop
  | [] => True
  | operand :: operands => Holds reading operand ∧ AllHold reading operands

/-- Is some requirement true? -/
def AnyHolds (reading : Reading) : List Requirement → Prop
  | [] => False
  | operand :: operands => Holds reading operand ∨ AnyHolds reading operands

/-- Are that many of the requirements true? -/
def ManyHold (reading : Reading) : Nat → List Requirement → Prop
  | 0, _ => True
  | _ + 1, [] => False
  | count + 1, operand :: operands =>
      Holds reading operand ∧ ManyHold reading count operands ∨
        ManyHold reading (count + 1) operands

end

@[simp]
theorem manyHold_zero (reading : Reading) (operands : List Requirement) :
    ManyHold reading 0 operands := by
  cases operands <;> simp [ManyHold]

/-! ## Agreement with evaluation -/

mutual

/-- Evaluation decides whether a requirement is true. -/
theorem holds_reading_iff (situation : Situation) :
    ∀ requirement : Requirement,
      requirement.Holds situation.reading ↔ requirement.eval situation = true
  | .const value => by simp [Holds, eval]
  | .hasItem item count => by simp [Holds, eval, Situation.reading]
  | .hasEvent event => by simp [Holds, eval, Situation.reading]
  | .not operand => by simp [Holds, eval, holds_reading_iff situation operand]
  | .and operands => by simp [Holds, eval, allHold_reading_iff situation operands]
  | .or operands => by simp [Holds, eval, anyHolds_reading_iff situation operands]
  | .atLeast count operands => by
      simp [Holds, eval, manyHold_reading_iff situation operands count]
  | .setting id => by simp [Holds, eval, Situation.reading]

theorem allHold_reading_iff (situation : Situation) :
    ∀ operands : List Requirement,
      AllHold situation.reading operands ↔ evalAll situation operands = true
  | [] => by simp [AllHold, evalAll]
  | operand :: operands => by
      simp [AllHold, evalAll, holds_reading_iff situation operand,
        allHold_reading_iff situation operands]

theorem anyHolds_reading_iff (situation : Situation) :
    ∀ operands : List Requirement,
      AnyHolds situation.reading operands ↔ evalAny situation operands = true
  | [] => by simp [AnyHolds, evalAny]
  | operand :: operands => by
      simp [AnyHolds, evalAny, holds_reading_iff situation operand,
        anyHolds_reading_iff situation operands]

theorem manyHold_reading_iff (situation : Situation) :
    ∀ (operands : List Requirement) (count : Nat),
      ManyHold situation.reading count operands ↔ count ≤ evalCount situation operands
  | operands, 0 => by simp
  | [], count + 1 => by simp [ManyHold, evalCount]
  | operand :: operands, count + 1 => by
      rw [ManyHold, evalCount, holds_reading_iff situation operand,
        manyHold_reading_iff situation operands count,
        manyHold_reading_iff situation operands (count + 1)]
      cases eval situation operand <;> simp only [Bool.toNat_false, Bool.toNat_true] <;> grind

end

/-! ## Monotonicity -/

/-- `large` exceeds `small` when `even` holds, and falls short of it otherwise. -/
def Ordered (even : Bool) (small large : Reading) : Prop :=
  if even then small ≤ large else large ≤ small

theorem Ordered.settings {even : Bool} {small large : Reading}
    (hordered : Ordered even small large) : small.settings = large.settings := by
  cases even with
  | false =>
      have hle : large ≤ small := hordered
      exact hle.settings.symm
  | true =>
      have hle : small ≤ large := hordered
      exact hle.settings

theorem Ordered.flip {even : Bool} {small large : Reading}
    (hordered : Ordered even small large) : Ordered (!even) large small := by
  cases even <;> exact hordered

mutual

/-- A polarized requirement stays true in the direction of its polarity. -/
theorem Holds.ordered {even : Bool} {small large : Reading}
    (hordered : Ordered even small large) :
    ∀ requirement : Requirement, requirement.polarized even = true →
      requirement.Holds small → requirement.Holds large
  | .const value, _, hholds => by simpa [Holds] using hholds
  | .hasItem item count, hpolarized, hholds => by
      obtain rfl : even = true := by simpa [polarized] using hpolarized
      exact Nat.le_trans hholds (hordered.count item)
  | .hasEvent event, hpolarized, hholds => by
      obtain rfl : even = true := by simpa [polarized] using hpolarized
      exact hordered.events hholds
  | .not operand, hpolarized, hholds => by
      intro hlarge
      have hoperand : operand.polarized (!even) = true := by simpa [polarized] using hpolarized
      exact hholds (Holds.ordered hordered.flip operand hoperand hlarge)
  | .and operands, hpolarized, hholds =>
      AllHold.ordered hordered operands (by simpa [polarized] using hpolarized) hholds
  | .or operands, hpolarized, hholds =>
      AnyHolds.ordered hordered operands (by simpa [polarized] using hpolarized) hholds
  | .atLeast count operands, hpolarized, hholds =>
      ManyHold.ordered hordered operands count (by simpa [polarized] using hpolarized) hholds
  | .setting id, _, hholds => by
      have hid : id ∈ small.settings := hholds
      rw [hordered.settings] at hid
      exact hid

theorem AllHold.ordered {even : Bool} {small large : Reading}
    (hordered : Ordered even small large) :
    ∀ operands : List Requirement, polarizedAll even operands = true →
      AllHold small operands → AllHold large operands
  | [], _, _ => trivial
  | operand :: operands, hpolarized, ⟨hfirst, hrest⟩ => by
      obtain ⟨hoperand, hoperands⟩ : operand.polarized even = true ∧
          polarizedAll even operands = true := by simpa [polarizedAll] using hpolarized
      exact ⟨Holds.ordered hordered operand hoperand hfirst,
        AllHold.ordered hordered operands hoperands hrest⟩

theorem AnyHolds.ordered {even : Bool} {small large : Reading}
    (hordered : Ordered even small large) :
    ∀ operands : List Requirement, polarizedAll even operands = true →
      AnyHolds small operands → AnyHolds large operands
  | operand :: operands, hpolarized, hholds => by
      obtain ⟨hoperand, hoperands⟩ : operand.polarized even = true ∧
          polarizedAll even operands = true := by simpa [polarizedAll] using hpolarized
      rcases hholds with hfirst | hrest
      · exact .inl (Holds.ordered hordered operand hoperand hfirst)
      · exact .inr (AnyHolds.ordered hordered operands hoperands hrest)

theorem ManyHold.ordered {even : Bool} {small large : Reading}
    (hordered : Ordered even small large) :
    ∀ (operands : List Requirement) (count : Nat), polarizedAll even operands = true →
      ManyHold small count operands → ManyHold large count operands
  | operands, 0, _, _ => manyHold_zero large operands
  | operand :: operands, count + 1, hpolarized, hholds => by
      obtain ⟨hoperand, hoperands⟩ : operand.polarized even = true ∧
          polarizedAll even operands = true := by simpa [polarizedAll] using hpolarized
      rcases hholds with ⟨hfirst, hrest⟩ | hrest
      · exact .inl ⟨Holds.ordered hordered operand hoperand hfirst,
          ManyHold.ordered hordered operands count hoperands hrest⟩
      · exact .inr (ManyHold.ordered hordered operands (count + 1) hoperands hrest)

end

/-- More items and events keep a positive requirement true. -/
theorem Positive.holds_of_le {requirement : Requirement} (hpositive : requirement.Positive)
    {small large : Reading} (hle : small ≤ large) (hholds : requirement.Holds small) :
    requirement.Holds large := by
  have hordered : Ordered true small large := hle
  exact Holds.ordered hordered requirement hpositive hholds

end Requirement

end SeedLogic
