import SeedLogic.Proofs.Hint.Bookkeeping
import SeedLogic.Proofs.Pathfinder.NamedSearch

/-!
# Stones that have hints

A board lists the stones that have hints, each once (`HintBoard.assignments`).  Whatever
board comes about for some worlds, by hints given by hand and by calls for hero hints, its
stones are stones of these worlds (`ProducedFor.exists_stone`).
-/

namespace SeedLogic

namespace HintBoard

variable {board : HintBoard} {worlds : List World}

/-! ## Assignments -/

/-- The stones that have hints, by world and then ascending, and what they tell. -/
def assignments (board : HintBoard) : List ((WorldId × GossipId) × Hint) :=
  board.stones.zipIdx.flatMap fun stones =>
    stones.1.entries.map fun entry => ((stones.2, entry.1), entry.2)

theorem mem_assignments_iff {world : WorldId} {stone : GossipId} {hint : Hint} :
    ((world, stone), hint) ∈ board.assignments ↔ board.hint? world stone = some hint := by
  rw [assignments, List.mem_flatMap, hint?, Option.bind_eq_some_iff]
  constructor
  · rintro ⟨⟨stones, id⟩, hstones, hentry⟩
    rcases List.mem_map.mp hentry with ⟨entry, hmem, heq⟩
    cases heq
    exact ⟨stones, List.mk_mem_zipIdx_iff_getElem?.mp hstones, Dict.find?_eq_some_iff.mpr hmem⟩
  · rintro ⟨stones, hstones, hfind⟩
    exact ⟨(stones, world), List.mk_mem_zipIdx_iff_getElem?.mpr hstones,
      List.mem_map.mpr ⟨(stone, hint), Dict.find?_eq_some_iff.mp hfind, rfl⟩⟩

/-- No stone is listed twice. -/
theorem nodup_assignments (board : HintBoard) : (board.assignments.map Prod.fst).Nodup := by
  have hkeys : board.assignments.map Prod.fst =
      board.stones.zipIdx.flatMap fun stones => stones.1.keys.map fun stone => (stones.2, stone) := by
    simp only [assignments, List.map_flatMap, List.map_map, Dict.keys, Function.comp_def]
  rw [hkeys, List.nodup_flatMap]
  constructor
  · intro stones _
    exact stones.1.nodup_keys.map fun _ _ heq => (Prod.mk.inj heq).2
  · have hplaces : (board.stones.zipIdx.map Prod.snd).Nodup := by
      rw [List.zipIdx_map_snd]
      exact List.nodup_range'
    apply (List.pairwise_map.mp hplaces).imp
    intro early late hne pair hearly hlate
    rcases List.mem_map.mp hearly with ⟨stone, -, rfl⟩
    rcases List.mem_map.mp hlate with ⟨other, -, heq⟩
    exact hne (Prod.mk.inj heq).1.symm

/-! ## Stones of worlds -/

/-- Every stone that has a hint is a stone of the world it is listed for. -/
def StonesExist (worlds : List World) (board : HintBoard) : Prop :=
  ∀ id stone hint, board.hint? id stone = some hint →
    ∃ world, worlds[id]? = some world ∧ stone < world.gossips.length

theorem stonesExist_empty (worlds : List World) (players : Nat) :
    StonesExist worlds (empty players) := by
  intro id stone hint htold
  simp at htold

theorem StonesExist.markHinted (hexist : StonesExist worlds board) (location : Location) :
    StonesExist worlds (board.markHinted location) :=
  hexist

theorem StonesExist.assign (hexist : StonesExist worlds board) {id : WorldId} {world : World}
    (hworld : worlds[id]? = some world) {stone : GossipId} (hstone : stone < world.gossips.length)
    (hint : Hint) : StonesExist worlds (board.assign id stone hint) := by
  intro elsewhere other told htold
  rw [hint?_assign] at htold
  by_cases hsame : elsewhere = id ∧ other = stone
  · obtain ⟨rfl, rfl⟩ := hsame
    exact ⟨world, hworld, hstone⟩
  · rw [if_neg hsame] at htold
    exact hexist elsewhere other told htold

end HintBoard

namespace Hint

variable {pathfinder : Pathfinder} {placement : Placement} {id : WorldId}

/-- A stone that is found is one of the world, and looking for it leaves the board alone. -/
theorem exists_stone_of_findStone {hidden : List Location} {accepts : GossipStone → Bool}
    {state next : HintState} {choice : Option GossipId}
    (hfind : (findStone pathfinder placement id hidden accepts state).result =
      .ok (choice, next)) :
    next.board = state.board ∧ ∀ stone, choice = some stone →
      ∃ world, pathfinder.world? id = some world ∧ stone < world.gossips.length := by
  rcases findStone_eq_ok_iff.mp hfind with ⟨search, world, -, hworld, hchoose, hboard⟩
  refine ⟨hboard, fun stone hstone => ?_⟩
  have hmem := RandomSource.mem_of_choose ((congrArg Prod.fst hchoose).trans hstone)
  rcases mem_candidates.mp hmem with ⟨_, entry, -, -, hentry, -, -⟩
  exact ⟨world, hworld, (List.getElem?_eq_some_iff.mp hentry).1⟩

/-- The board when placing hints has come to an end, good or bad. -/
def endBoard : Except Interrupted (Nat × HintState) → HintBoard
  | .ok (_, state) => state.board
  | .error interrupted => interrupted.state.board

/-- Hints that are given in turn are given to stones that exist. -/
theorem stonesExist_placeInTurn {count placed : Nat} {locations : List Location}
    {state : HintState} (hexist : state.board.StonesExist pathfinder.worlds) :
    (endBoard (placeInTurn pathfinder placement id count placed locations state).result).StonesExist
      pathfinder.worlds := by
  induction locations generalizing placed state with
  | nil => exact hexist
  | cons location rest ih =>
      rw [placeInTurn]
      split
      case isFalse => exact hexist
      case isTrue =>
        rw [Recorded.result_bind]
        cases hfind : (findStone pathfinder placement id [location] GossipStone.isRegular
            state).result with
        | error interrupted =>
            have hsame := findStone_eq_error hfind
            change interrupted.state.board.StonesExist pathfinder.worlds
            exact hsame ▸ hexist
        | ok found =>
            rcases found with ⟨choice, next⟩
            rcases exists_stone_of_findStone hfind with ⟨hboard, hstone⟩
            rw [← hboard] at hexist
            cases choice with
            | none => exact ih hexist
            | some stone =>
                obtain ⟨world, hworld, hlt⟩ := hstone stone rfl
                rw [← Pathfinder.getElem?_worlds] at hworld
                exact ih ((hexist.markHinted location).assign hworld hlt (.hero location))

/-- A call gives hints to stones that exist, whether it succeeds or fails. -/
theorem Call.stonesExist {call : Call} {board : HintBoard}
    (hexist : board.StonesExist pathfinder.worlds) :
    (call.boardAfter pathfinder placement board).StonesExist pathfinder.worlds := by
  have hend : call.boardAfter pathfinder placement board =
      endBoard (call.outcome pathfinder placement board) := rfl
  rw [hend, Call.outcome, placeHeroHints]
  exact stonesExist_placeInTurn hexist

end Hint

/-! ## Boards for worlds -/

/-- A board comes about for some worlds: there are no hints at first, locations are marked,
stones of these worlds are given hints, and hero hints are called for. -/
inductive HintBoard.ProducedFor (worlds : List World) : HintBoard → Prop where
  | empty (players : Nat) : ProducedFor worlds (.empty players)
  | mark {board : HintBoard} (location : Location) :
      ProducedFor worlds board → ProducedFor worlds (board.markHinted location)
  | assign {board : HintBoard} {id : WorldId} {world : World} {stone : GossipId} (hint : Hint) :
      ProducedFor worlds board → worlds[id]? = some world → stone < world.gossips.length →
      ProducedFor worlds (board.assign id stone hint)
  | call {board : HintBoard} {pathfinder : Pathfinder} (placement : Placement)
      (call : Hint.Call) : ProducedFor worlds board → pathfinder.worlds = worlds →
      ProducedFor worlds (call.boardAfter pathfinder placement board)

/-- The stones of a board that has come about for some worlds are stones of theirs. -/
theorem HintBoard.ProducedFor.exists_stone {worlds : List World} {board : HintBoard}
    (hproduced : board.ProducedFor worlds) : board.StonesExist worlds := by
  induction hproduced with
  | empty players => exact stonesExist_empty worlds players
  | mark location _ ih => exact ih.markHinted location
  | assign hint _ hworld hstone ih => exact ih.assign hworld hstone hint
  | call placement call _ hworlds ih =>
      subst hworlds
      exact call.stonesExist ih

end SeedLogic
