import SeedLogic.Proofs.Pathfinder.Settled

/-!
# Spheres by number

Every round records a sphere until one finds nothing, and after that no other does.  So
the spheres after some rounds are as many of the spheres of the whole search, or all of
them (`spheres_iterate_eq_take`).
-/

namespace SeedLogic

namespace Pathfinder

variable {pathfinder : Pathfinder} {starting : StartingItems} {options : SearchOptions}
  {state : SearchState} (hlinked : ∀ player ∈ pathfinder.players, player.world.Linked)
  (hledger : pathfinder.Ledger starting options state)
include hlinked hledger

/-- Once a round finds nothing, no sphere is recorded any more. -/
theorem spheres_iterate_eq_self (hnil : pathfinder.sphere options state = []) (count : Nat) :
    pathfinder.sphere options ((pathfinder.round options)^[count] state) = [] ∧
      ((pathfinder.round options)^[count] state).spheres = state.spheres := by
  induction count with
  | zero => exact ⟨hnil, rfl⟩
  | succ count ih =>
      rcases ih with ⟨hnone, hspheres⟩
      rw [Function.iterate_succ_apply']
      constructor
      · exact sphere_round_eq_nil hlinked (hledger.iterate count) hnone
      · rw [spheres_round, hnone, hspheres]
        rfl

variable (hspheres : state.spheres = [])
include hspheres

/-- As many spheres as rounds, or fewer and no more to come. -/
theorem length_spheres_iterate (count : Nat) :
    ((pathfinder.round options)^[count] state).spheres.length = count ∨
      ((pathfinder.round options)^[count] state).spheres.length < count ∧
        pathfinder.sphere options ((pathfinder.round options)^[count] state) = [] := by
  induction count with
  | zero => exact .inl (congrArg List.length hspheres)
  | succ count ih =>
      have hbooks := hledger.iterate count
      rw [Function.iterate_succ_apply', spheres_round]
      by_cases hnil : pathfinder.sphere options ((pathfinder.round options)^[count] state) = []
      · refine .inr ⟨?_, sphere_round_eq_nil hlinked hbooks hnil⟩
        rw [if_pos (List.isEmpty_iff.mpr hnil)]
        rcases ih with hlength | ⟨hless, -⟩
        · exact Nat.lt_succ_of_le hlength.le
        · exact Nat.lt_succ_of_lt hless
      · rcases ih with hlength | ⟨-, hnone⟩
        · rw [if_neg (mt List.isEmpty_iff.mp hnil), List.length_append, hlength]
          exact .inl rfl
        · exact absurd hnone hnil

/-- The spheres after some rounds are the first of the spheres after more. -/
theorem spheres_iterate_eq_take {early late : Nat} (hle : early ≤ late) :
    ((pathfinder.round options)^[early] state).spheres =
      ((pathfinder.round options)^[late] state).spheres.take early := by
  have hprefix := (le_iterate options hledger.length hle).spheres
  rcases length_spheres_iterate hlinked hledger hspheres early with hlength | ⟨hless, hnil⟩
  · have htake := List.prefix_iff_eq_take.mp hprefix
    rwa [hlength] at htake
  · obtain ⟨more, rfl⟩ := Nat.exists_eq_add_of_le' hle
    have hsame := (spheres_iterate_eq_self hlinked (hledger.iterate early) hnil more).2
    rw [Function.iterate_add_apply, hsame, List.take_of_length_le hless.le]

end Pathfinder

end SeedLogic
