import Mathlib.Data.List.Induction
import SeedLogic.Dict

/-!
# Dictionaries of entries

A dictionary that is made from a list has all of its entries, when no two of them are
different values of one key (`Dict.find?_ofList_iff`).  Dictionaries in which the same
values are found are equal (`Dict.ext_find?`).
-/

namespace SeedLogic.Dict

variable {κ α : Type}

/-- No key has two values among some entries. -/
def Agree (entries : List (κ × α)) : Prop :=
  ∀ {key : κ} {first second : α}, (key, first) ∈ entries → (key, second) ∈ entries →
    first = second

variable [Ord κ] [Std.TransOrd κ] [Std.LawfulEqOrd κ]

omit [Std.TransOrd κ] in
theorem nodup_keys (dict : Dict κ α) : dict.keys.Nodup := by
  refine List.pairwise_map.mpr (dict.sorted.imp fun hless heq => ?_)
  rw [heq] at hless
  simp at hless

theorem find?_ofList_concat (entries : List (κ × α)) (entry : κ × α) (key : κ) :
    (ofList (entries ++ [entry])).find? key =
      if compare key entry.1 = .eq then some entry.2 else (ofList entries).find? key := by
  rw [ofList, List.foldl_append]
  exact find?_insert _ _ _ _

/-- Of several values of a key the last one is found. -/
theorem find?_ofList [BEq κ] [LawfulBEq κ] (entries : List (κ × α)) (key : κ) :
    (ofList entries).find? key = entries.reverse.lookup key := by
  induction entries using List.reverseRecOn with
  | nil => rfl
  | append_singleton entries entry ih =>
      rw [find?_ofList_concat, List.reverse_concat, List.lookup_cons, ih]
      by_cases heq : key = entry.1
      · simp [heq]
      · have hne : compare key entry.1 ≠ .eq := fun heq' =>
          heq (Std.LawfulEqCmp.eq_of_compare heq')
        rw [if_neg hne, beq_eq_false_iff_ne.mpr heq]

/-- Entries that agree are found. -/
theorem find?_ofList_iff {entries : List (κ × α)} (hagree : Agree entries) {key : κ} {value : α} :
    (ofList entries).find? key = some value ↔ (key, value) ∈ entries := by
  induction entries using List.reverseRecOn with
  | nil => exact ⟨nofun, nofun⟩
  | append_singleton entries entry ih =>
      rcases entry with ⟨last, found⟩
      have hbefore : Agree entries := fun hfirst hsecond =>
        hagree (List.mem_append_left _ hfirst) (List.mem_append_left _ hsecond)
      rw [find?_ofList_concat, List.mem_append, List.mem_singleton]
      split
      case isTrue heq =>
        obtain rfl : key = last := Std.LawfulEqCmp.eq_of_compare heq
        rw [Option.some_inj]
        constructor
        · rintro rfl
          exact .inr rfl
        · rintro (hold | hnew)
          · exact hagree (List.mem_append_right _ List.mem_cons_self)
              (List.mem_append_left _ hold)
          · cases hnew
            rfl
      case isFalse hne =>
        rw [ih hbefore]
        constructor
        · exact .inl
        · rintro (hold | hnew)
          · exact hold
          · cases hnew
            exact absurd Std.ReflCmp.compare_self hne

/-- Dictionaries in which the same values are found are equal. -/
theorem ext_find? {left right : Dict κ α}
    (hsame : ∀ key value, left.find? key = some value ↔ right.find? key = some value) :
    left = right := by
  simp only [find?_eq_some_iff] at hsame
  rcases left with ⟨left, hleft⟩
  rcases right with ⟨right, hright⟩
  have hnodup : ∀ {entries : List (κ × α)},
      (entries.Pairwise fun first second => compare first.1 second.1 = .lt) → entries.Nodup := by
    intro entries hsorted
    refine hsorted.imp fun hless heq => ?_
    rw [heq] at hless
    simp at hless
  have hperm : left.Perm right :=
    (List.perm_ext_iff_of_nodup (hnodup hleft) (hnodup hright)).mpr fun entry =>
      hsame entry.1 entry.2
  have heq : left = right := by
    refine List.Perm.eq_of_pairwise (fun first second _ _ hless hmore => ?_) hleft hright hperm
    have hirrefl := Std.TransCmp.lt_trans hless hmore
    simp at hirrefl
  subst heq
  rfl

/-- A dictionary is made from its entries. -/
theorem ofList_entries (dict : Dict κ α) : ofList dict.entries = dict := by
  have hagree : Agree dict.entries := by
    intro key first second hfirst hsecond
    rw [← find?_eq_some_iff] at hfirst hsecond
    exact Option.some.inj (hfirst.symm.trans hsecond)
  exact ext_find? fun key value => by rw [find?_ofList_iff hagree, find?_eq_some_iff]

end SeedLogic.Dict
