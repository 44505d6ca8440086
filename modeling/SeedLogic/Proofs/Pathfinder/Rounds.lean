import Mathlib.Logic.Function.Iterate
import SeedLogic.Proofs.Pathfinder.Round

/-!
# Searches as rounds

A search repeats its round until one halts it, and it is given enough rounds for
that: every other round reaches something more, of which there is only so much.
So the outcome of a search is a number of rounds, the least after which it halts
(`rounds_eq_iterate`).
-/

namespace SeedLogic

/-! ## Growth -/

namespace SearchState

/-- Nothing is lost: in no world, and not among the spheres, to which more may be
added. -/
protected structure Le (before after : SearchState) : Prop where
  worlds : List.Forall₂ (· ≤ ·) before.worlds after.worlds
  spheres : before.spheres <+: after.spheres
  goal : before.goal = true → after.goal = true

instance : LE SearchState :=
  ⟨SearchState.Le⟩

theorem le_refl (state : SearchState) : state ≤ state :=
  ⟨List.forall₂_same.mpr fun world _ => world.le_refl, List.prefix_refl _, id⟩

theorem forall₂_le_trans {first second third : List WorldState}
    (hearly : List.Forall₂ (· ≤ ·) first second) (hlate : List.Forall₂ (· ≤ ·) second third) :
    List.Forall₂ (· ≤ ·) first third := by
  induction hearly generalizing third with
  | nil => exact hlate
  | cons hhead _ ih =>
      cases hlate with
      | cons hnext hrest => exact .cons (WorldState.le_trans hhead hnext) (ih hrest)

theorem le_trans {first second third : SearchState} (hearly : first ≤ second)
    (hlate : second ≤ third) : first ≤ third :=
  ⟨forall₂_le_trans hearly.worlds hlate.worlds, hearly.spheres.trans hlate.spheres,
    hlate.goal ∘ hearly.goal⟩

/-- A world of a state is found, grown, in a later one. -/
theorem exists_world_of_le {before after : SearchState} (hle : before ≤ after) {id : WorldId}
    {world : WorldState} (hworld : before.worlds[id]? = some world) :
    ∃ later, after.worlds[id]? = some later ∧ world ≤ later := by
  rcases List.getElem?_eq_some_iff.mp hworld with ⟨hlt, rfl⟩
  have hlt' : id < after.worlds.length := hle.worlds.length_eq ▸ hlt
  refine ⟨after.worlds[id], List.getElem?_eq_getElem hlt', ?_⟩
  exact (List.forall₂_iff_get.mp hle.worlds).2 id hlt hlt'

/-! ## Progress -/

theorem total_progress_le {before after : List WorldState}
    (hworlds : List.Forall₂ (· ≤ ·) before after) :
    WorldState.total WorldState.progress before ≤ WorldState.total WorldState.progress after := by
  induction hworlds with
  | nil => exact Nat.le_refl _
  | cons hhead _ ih =>
      have hreach := WorldState.reach_le_of_le hhead
      have hlocations := Flags.count_le_of_le hhead.locations
      simp only [WorldState.total, WorldState.progress]
      omega

theorem progress_le_of_le {before after : SearchState} (hle : before ≤ after) :
    before.progress ≤ after.progress :=
  total_progress_le hle.worlds

/-- Worlds that grow without progress have the same areas, events and locations. -/
theorem forall₂_eq_of_total_progress_eq {before after : List WorldState}
    (hworlds : List.Forall₂ (· ≤ ·) before after)
    (hprogress : WorldState.total WorldState.progress after =
      WorldState.total WorldState.progress before) :
    List.Forall₂ (fun before after => after.areas = before.areas ∧ after.events = before.events ∧
      after.locations = before.locations) before after := by
  induction hworlds with
  | nil => exact .nil
  | cons hhead hrest ih =>
      have hreach := WorldState.reach_le_of_le hhead
      have hlocations := Flags.count_le_of_le hhead.locations
      have hsum := total_progress_le hrest
      simp only [WorldState.total, WorldState.progress] at hprogress
      rcases WorldState.eq_of_reach_eq hhead (by omega) with ⟨hareas, hevents⟩
      have hsame := Flags.eq_of_le_of_count_eq hhead.locations (by omega)
      exact .cons ⟨hareas, hevents, hsame.symm⟩ (ih (by omega))

theorem total_capacity_eq {before after : List WorldState}
    (hworlds : List.Forall₂ (· ≤ ·) before after) :
    WorldState.total WorldState.capacity after = WorldState.total WorldState.capacity before := by
  induction hworlds with
  | nil => rfl
  | cons hhead _ ih =>
      simp only [WorldState.total, ih, WorldState.capacity, hhead.areas.size, hhead.events.size,
        hhead.locations.size]

theorem capacity_eq_of_le {before after : SearchState} (hle : before ≤ after) :
    after.capacity = before.capacity := by
  exact total_capacity_eq hle.worlds

theorem progress_le_capacity (state : SearchState) : state.progress ≤ state.capacity := by
  simp only [progress, capacity]
  induction state.worlds with
  | nil => exact Nat.le_refl _
  | cons world worlds ih =>
      have hareas := world.areas.count_le_size
      have hevents := world.events.count_le_size
      have hlocations := world.locations.count_le_size
      simp only [WorldState.total, WorldState.progress, WorldState.reach, WorldState.capacity]
        at ih ⊢
      omega

end SearchState

namespace Pathfinder

variable {pathfinder : Pathfinder} {options : SearchOptions}

/-- A round only adds. -/
theorem le_round (options : SearchOptions) (state : SearchState)
    (hlength : state.worlds.length = pathfinder.players.length) :
    state ≤ pathfinder.round options state := by
  constructor
  · refine List.forall₂_iff_get.mpr
      ⟨(hlength.trans (length_worlds_round state hlength).symm), fun id hid hround => ?_⟩
    obtain ⟨player, hplayer⟩ : ∃ player, pathfinder.players[id]? = some player :=
      ⟨_, List.getElem?_eq_getElem (hlength ▸ hid)⟩
    have hworld := List.getElem?_eq_getElem hid
    rcases round_world options hplayer hworld with ⟨after, hafter, hreceives⟩
    rw [List.getElem?_eq_getElem hround] at hafter
    have hclose := (player.moves_close options.gossips state.worlds[id]).le
    have hsearch := (player.found_search id options.forbidden
      (player.close options.gossips state.worlds[id])).le
    rw [List.get_eq_getElem, List.get_eq_getElem, Option.some.inj hafter]
    exact WorldState.le_trans hclose (WorldState.le_trans hsearch hreceives.le)
  · rw [spheres_round]
    split
    · exact List.prefix_refl _
    · exact List.prefix_append _ _
  · intro hgoal
    simp [round, hgoal]

/-! ## Iterated rounds -/

/-- Does the next round halt the search? -/
def Halts (pathfinder : Pathfinder) (options : SearchOptions) (state : SearchState) : Prop :=
  (pathfinder.round options state).goal = true ∧ options.stopAtGoal = true ∨
    (pathfinder.round options state).progress = state.progress

theorem length_worlds_iterate {state : SearchState}
    (hlength : state.worlds.length = pathfinder.players.length) (count : Nat) :
    ((pathfinder.round options)^[count] state).worlds.length = pathfinder.players.length := by
  induction count with
  | zero => exact hlength
  | succ count ih =>
      rw [Function.iterate_succ_apply']
      exact length_worlds_round _ ih

theorem le_iterate (options : SearchOptions) {state : SearchState}
    (hlength : state.worlds.length = pathfinder.players.length) {early late : Nat}
    (hle : early ≤ late) :
    (pathfinder.round options)^[early] state ≤ (pathfinder.round options)^[late] state := by
  induction late, hle using Nat.le_induction with
  | base => exact SearchState.le_refl _
  | succ late _ ih =>
      rw [Function.iterate_succ_apply']
      exact SearchState.le_trans ih (le_round _ _ (length_worlds_iterate hlength late))

/-- With enough rounds, a search ends with the first round that halts it. -/
theorem rounds_eq_iterate (options : SearchOptions) {fuel : Nat} {state : SearchState}
    (hlength : state.worlds.length = pathfinder.players.length)
    (hfuel : state.capacity < state.progress + fuel) (iterations : Nat) :
    ∃ count, pathfinder.rounds options fuel iterations state =
        ⟨(pathfinder.round options)^[count + 1] state, iterations + count + 1⟩ ∧
      pathfinder.Halts options ((pathfinder.round options)^[count] state) ∧
      ∀ earlier < count,
        ¬pathfinder.Halts options ((pathfinder.round options)^[earlier] state) := by
  induction fuel generalizing iterations state with
  | zero =>
      have hcapacity := state.progress_le_capacity
      omega
  | succ fuel ih =>
      by_cases hhalts : pathfinder.Halts options state
      · refine ⟨0, ?_, hhalts, fun earlier hlt => absurd hlt (Nat.not_lt_zero _)⟩
        simp only [rounds]
        rcases hhalts with ⟨hgoal, hstop⟩ | hprogress
        · rw [if_pos (by simp [hgoal, hstop])]
          rfl
        · simp only [if_pos hprogress, ite_self]
          rfl
      · rcases not_or.mp hhalts with ⟨hgoal, hprogress⟩
        have hgrows := le_round options state hlength
        have hless := SearchState.progress_le_of_le hgrows
        have hrest : (pathfinder.round options state).capacity <
            (pathfinder.round options state).progress + fuel := by
          rw [SearchState.capacity_eq_of_le hgrows]
          omega
        rcases ih (length_worlds_round state hlength) hrest (iterations + 1) with
          ⟨count, hrounds, hhalt, hearlier⟩
        refine ⟨count + 1, ?_, hhalt, fun earlier hlt => ?_⟩
        · simp only [rounds]
          rw [if_neg (by simpa using hgoal), if_neg hprogress, hrounds, Function.iterate_succ_apply]
          congr 1
          omega
        · cases earlier with
          | zero => exact hhalts
          | succ earlier => exact hearlier earlier (by omega)

end Pathfinder

end SeedLogic
