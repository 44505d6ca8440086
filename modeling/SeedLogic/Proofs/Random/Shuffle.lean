import SeedLogic.Random

/-!
# What random choices leave alone

Whatever the words of a source are, a shuffle rearranges a list (`shuffle_perm`), and a
choice takes an element of it (`mem_of_choose`) where there is one (`choose_eq_none_iff`).
-/

namespace SeedLogic.RandomSource

variable {α : Type}

/-! ## Shuffling -/

/-- An exchange rearranges a list. -/
theorem exchange_perm (elements : List α) (first second : Nat) :
    (exchange elements first second).Perm elements := by
  unfold exchange
  split
  case h_1 left right hleft hright =>
    rcases List.getElem?_eq_some_iff.mp hleft with ⟨hfirst, rfl⟩
    rcases List.getElem?_eq_some_iff.mp hright with ⟨hsecond, rfl⟩
    exact List.set_set_perm hfirst hsecond
  case h_2 => exact .refl _

theorem shuffleFrom_perm (count : Nat) (elements : List α) (source : RandomSource) :
    (shuffleFrom count elements source).1.Perm elements := by
  fun_induction shuffleFrom count elements source with
  | case1 => exact .refl _
  | case2 => exact .refl _
  | case3 count elements source place rest _ ih => exact ih.trans (exchange_perm _ _ _)

/-- A shuffle rearranges a list. -/
theorem shuffle_perm (source : RandomSource) (elements : List α) :
    (source.shuffle elements).1.Perm elements :=
  shuffleFrom_perm _ _ _

/-! ## Numbers below a bound -/

theorem peek_lt (source : RandomSource) : source.peek < Nat.pow 2 32 := by
  unfold peek
  split
  case isTrue => exact UInt32.toNat_lt _
  case isFalse => exact Nat.pow_pos Nat.zero_lt_two

theorem belowWithin_lt {bound : Nat} (hbound : 0 < bound) (fuel : Nat) (source : RandomSource) :
    (belowWithin bound fuel source).1 < bound := by
  fun_induction belowWithin bound fuel source with
  | case1 => exact hbound
  | case2 fuel source product haccepted =>
      exact Nat.div_lt_of_lt_mul (Nat.mul_lt_mul_of_pos_right source.peek_lt hbound)
  | case3 fuel source product hrejected ih => exact ih

/-- A number below a positive bound is below it. -/
theorem below_lt (source : RandomSource) {bound : Nat} (hbound : 0 < bound) :
    (source.below bound).1 < bound :=
  belowWithin_lt hbound _ _

/-! ## Choosing -/

/-- What is chosen is an element. -/
theorem mem_of_choose {source : RandomSource} {elements : List α} {element : α}
    (hchoice : (source.choose elements).1 = some element) : element ∈ elements := by
  unfold choose at hchoice
  split at hchoice
  case isTrue => cases hchoice
  case isFalse => exact List.mem_of_getElem? hchoice

/-- Nothing is chosen only where there is nothing. -/
theorem choose_eq_none_iff {source : RandomSource} {elements : List α} :
    (source.choose elements).1 = none ↔ elements = [] := by
  unfold choose
  split
  case isTrue hempty => exact ⟨fun _ => List.isEmpty_iff.mp hempty, fun _ => rfl⟩
  case isFalse hnonempty =>
    have hne : elements ≠ [] := fun hnil => hnonempty (List.isEmpty_iff.mpr hnil)
    have hplace := source.below_lt (List.length_pos_iff.mpr hne)
    simp only [List.getElem?_eq_none_iff, hne, iff_false, Nat.not_le]
    exact hplace

end SeedLogic.RandomSource
