import Mathlib.Algebra.GroupWithZero.Nat
import Mathlib.Data.List.Forall2
import SeedLogic.Inventory

/-!
# Growth of flags and inventories

Flags are ordered by what is set in tables of one size.  Setting numbers only goes
up in this order, and the number of flags set measures it: ordered flags with the
same count are equal (`eq_of_le_of_count_eq`).
-/

namespace SeedLogic

namespace Flags

/-- Tables of one size, of which the second has set whatever the first has. -/
protected structure Le (fewer more : Flags) : Prop where
  size : fewer.size = more.size
  has : ∀ {id : Nat}, fewer.has id = true → more.has id = true

instance : LE Flags :=
  ⟨Flags.Le⟩

theorem le_refl (flags : Flags) : flags ≤ flags :=
  ⟨rfl, id⟩

theorem le_trans {first second third : Flags} (hearly : first ≤ second)
    (hlate : second ≤ third) : first ≤ third :=
  ⟨hearly.size.trans hlate.size, hlate.has ∘ hearly.has⟩

theorem le_mark (flags : Flags) (id : Nat) : flags ≤ flags.mark id := by
  refine ⟨(size_mark flags id).symm, fun {other} hhas => ?_⟩
  rw [has_mark, hhas, Bool.true_or]

theorem has_mark_self {flags : Flags} {id : Nat} (hlt : id < flags.size) :
    (flags.mark id).has id = true := by
  simp [has_mark, hlt]

theorem has_of_has_mark {flags : Flags} {id other : Nat}
    (hhas : (flags.mark id).has other = true) : other = id ∨ flags.has other = true := by
  rw [has_mark, Bool.or_eq_true, Bool.and_eq_true, beq_iff_eq] at hhas
  rcases hhas with hold | ⟨rfl, -⟩
  · exact .inr hold
  · exact .inl rfl

/-! ## Several numbers -/

@[simp]
theorem size_foldl_mark (ids : List Nat) (flags : Flags) :
    (ids.foldl mark flags).size = flags.size := by
  induction ids generalizing flags with
  | nil => rfl
  | cons first ids ih => rw [List.foldl_cons, ih, size_mark]

/-- Setting several numbers changes those numbers of the table. -/
theorem has_foldl_mark {ids : List Nat} {flags : Flags} {id : Nat} :
    (ids.foldl mark flags).has id = true ↔
      flags.has id = true ∨ id ∈ ids ∧ id < flags.size := by
  induction ids generalizing flags with
  | nil => simp
  | cons first ids ih =>
      simp only [List.foldl_cons, ih, has_mark, size_mark, Bool.or_eq_true, Bool.and_eq_true,
        beq_iff_eq, decide_eq_true_eq, List.mem_cons]
      constructor
      · rintro ((hold | ⟨rfl, hlt⟩) | ⟨hmem, hlt⟩)
        · exact .inl hold
        · exact .inr ⟨.inl rfl, hlt⟩
        · exact .inr ⟨.inr hmem, hlt⟩
      · rintro (hold | ⟨rfl | hmem, hlt⟩)
        · exact .inl (.inl hold)
        · exact .inl (.inr ⟨rfl, hlt⟩)
        · exact .inr ⟨hmem, hlt⟩

/-! ## Counting -/

/-- The bits of ordered flags are ordered one by one. -/
theorem forall₂_bits_of_le {fewer more : Flags} (hle : fewer ≤ more) :
    List.Forall₂ (fun left right => left = true → right = true)
      fewer.bits.toList more.bits.toList := by
  refine List.forall₂_iff_get.mpr ⟨hle.size, fun id hleft hright hset => ?_⟩
  have hfewer : fewer.has id = true := by
    simpa [has, Array.getElem?_eq_getElem hleft] using hset
  simpa [has, Array.getElem?_eq_getElem hright] using hle.has hfewer

theorem count_true_le {left right : List Bool}
    (hbits : List.Forall₂ (fun left right => left = true → right = true) left right) :
    left.count true ≤ right.count true := by
  induction hbits with
  | nil => exact Nat.le_refl _
  | @cons first second lefts rights hbit _ ih => cases first <;> cases second <;> simp_all; omega

theorem eq_of_count_true_eq {left right : List Bool}
    (hbits : List.Forall₂ (fun left right => left = true → right = true) left right)
    (hcount : left.count true = right.count true) : left = right := by
  induction hbits with
  | nil => rfl
  | @cons first second lefts rights hbit hrest ih =>
      have hle := count_true_le hrest
      cases first <;> cases second
      · simp_all
      · simp only [List.count_cons_self, List.count_cons_of_ne (by decide : false ≠ true)] at hcount
        omega
      · simp at hbit
      · simp_all

theorem count_le_of_le {fewer more : Flags} (hle : fewer ≤ more) : fewer.count ≤ more.count := by
  simpa [count, ← Array.count_toList] using count_true_le (forall₂_bits_of_le hle)

/-- Flags that grow without setting more have not changed. -/
theorem eq_of_le_of_count_eq {fewer more : Flags} (hle : fewer ≤ more)
    (hcount : fewer.count = more.count) : fewer = more := by
  rcases fewer with ⟨left⟩
  rcases more with ⟨right⟩
  congr 1
  apply Array.toList_inj.mp
  refine eq_of_count_true_eq (forall₂_bits_of_le hle) ?_
  simpa [count, ← Array.count_toList] using hcount

theorem le_antisymm {left right : Flags} (hleft : left ≤ right) (hright : right ≤ left) :
    left = right :=
  eq_of_le_of_count_eq hleft (Nat.le_antisymm (count_le_of_le hleft) (count_le_of_le hright))

/-- Flags of which none is set are clear. -/
theorem eq_clear {flags : Flags} (hnone : ∀ id, flags.has id = false) :
    flags = .clear flags.size := by
  refine le_antisymm ⟨(size_clear _).symm, fun {id} hhas => ?_⟩ ⟨size_clear _, fun {id} hhas => ?_⟩
  · rw [hnone] at hhas
    cases hhas
  · rw [has_clear] at hhas
    cases hhas

/-- Setting a number that is set changes nothing. -/
theorem mark_eq_self {flags : Flags} {id : Nat} (hset : id < flags.size → flags.has id = true) :
    flags.mark id = flags := by
  refine le_antisymm ⟨size_mark flags id, fun {other} hhas => ?_⟩ (le_mark flags id)
  rcases has_of_has_mark hhas with rfl | hold
  · exact hset (size_mark flags other ▸ lt_size_of_has hhas)
  · exact hold

end Flags

namespace Inventory

theorem modulus_pos : 0 < modulus :=
  Nat.two_pow_pos 32

/-- Adding several amounts adds up the amounts of each item, as far as can be counted. -/
theorem count_foldl_add (entries : List (Nat × Nat)) {inventory : Inventory} {item : Nat}
    (hcount : inventory.count item < modulus) :
    (entries.foldl (fun inventory entry => inventory.add entry.1 entry.2) inventory).count item =
      (inventory.count item + ((entries.filter fun entry => entry.1 = item).map Prod.snd).sum) %
        modulus := by
  induction entries generalizing inventory with
  | nil => simp [Nat.mod_eq_of_lt hcount]
  | cons entry entries ih =>
      have hadd := inventory.count_add entry.1 entry.2 item
      rw [List.foldl_cons, List.filter_cons]
      by_cases heq : entry.1 = item
      · rw [if_pos heq] at hadd
        rw [ih (hadd ▸ Nat.mod_lt _ modulus_pos), hadd, Nat.mod_add_mod]
        simp [heq, Nat.add_assoc]
      · rw [if_neg heq] at hadd
        rw [ih (hadd ▸ hcount), hadd]
        simp [heq]

/-! ## Listing -/

/-- Every item that has a count, with its count. -/
def entries (inventory : Inventory) : List (Nat × Nat) :=
  (List.range inventory.counts.size).map fun item => (item, inventory.count item)

theorem sum_range_filter (amount : Nat → Nat) (item size : Nat) :
    ((((List.range size).map fun other => (other, amount other)).filter
      fun entry => entry.1 = item).map Prod.snd).sum = if item < size then amount item else 0 := by
  induction size with
  | zero => rfl
  | succ size ih =>
      rw [List.range_succ, List.map_append, List.filter_append, List.map_append, List.sum_append,
        ih]
      by_cases heq : size = item
      · simp [heq]
      · have hiff : item < size + 1 ↔ item < size := by omega
        simp [heq, hiff]

/-- The entries of an item sum up to its count. -/
theorem sum_entries (inventory : Inventory) (item : Nat) :
    ((inventory.entries.filter fun entry => entry.1 = item).map Prod.snd).sum =
      inventory.count item := by
  rw [entries, sum_range_filter]
  split
  case isTrue => rfl
  case isFalse hlt =>
    rw [count, Array.getElem?_eq_none (Nat.le_of_not_lt hlt)]
    rfl

end Inventory

end SeedLogic
