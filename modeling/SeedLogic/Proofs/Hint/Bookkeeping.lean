import Mathlib.Data.List.Induction
import Mathlib.Data.List.Nodup
import SeedLogic.Hint
import SeedLogic.Proofs.Outcome
import SeedLogic.Proofs.Random.Shuffle
import SeedLogic.Proofs.World.Linked

/-!
# Bookkeeping of hints

The set of hinted locations and the hints of the stones are kept apart, by world, and
changed one hint at a time.  They stay in step (`HintBoard.InOrder`) whatever calls are
made, in whatever worlds, with whatever choices, and also when a call fails midway
(`placeHeroHints_keeps_order`).
-/

namespace SeedLogic

namespace HintBoard

variable (board : HintBoard) (world : WorldId) (stone : GossipId)

/-- What a stone of a world tells. -/
def hint? : Option Hint :=
  board.stones[world]?.bind fun stones => stones.find? stone

theorem isAssigned_iff :
    board.isAssigned world stone = true ↔ ∃ hint, board.hint? world stone = some hint := by
  rw [isAssigned, hint?]
  cases board.stones[world]? with
  | none => simp
  | some stones => simp [Dict.contains, Option.isSome_iff_exists]

theorem isAssigned_eq_false_iff :
    board.isAssigned world stone = false ↔ board.hint? world stone = none := by
  rw [← Bool.not_eq_true, isAssigned_iff, Option.eq_none_iff_forall_ne_some, not_exists]

@[simp]
theorem hint?_empty (players : Nat) : (empty players).hint? world stone = none := by
  rw [hint?, empty, List.getElem?_replicate]
  split <;> rfl

@[simp]
theorem hint?_markHinted (location : Location) :
    (board.markHinted location).hint? world stone = board.hint? world stone :=
  rfl

@[simp]
theorem hinted_assign (hint : Hint) : (board.assign world stone hint).hinted = board.hinted :=
  rfl

/-- A stone that is given a hint tells it, and the others tell what they told. -/
theorem hint?_assign (hint : Hint) (elsewhere : WorldId) (other : GossipId) :
    (board.assign world stone hint).hint? elsewhere other =
      if elsewhere = world ∧ other = stone then some hint else board.hint? elsewhere other := by
  have hlist : (board.stones ++
      List.replicate (world + 1 - board.stones.length) Dict.empty)[elsewhere]? =
        if elsewhere = world then some (board.stones[elsewhere]?.getD Dict.empty)
        else if elsewhere < board.stones.length then board.stones[elsewhere]?
        else if elsewhere < world then some Dict.empty else none := by
    by_cases hlt : elsewhere < board.stones.length
    · simp [List.getElem?_append_left hlt, hlt]
    · rw [List.getElem?_append_right (Nat.le_of_not_lt hlt), List.getElem?_replicate,
        List.getElem?_eq_none (Nat.le_of_not_lt hlt)]
      grind
  have hempty : ∀ other, (Dict.empty : Dict GossipId Hint).find? other = none := fun _ => rfl
  simp only [hint?, assign, List.getElem?_modify, hlist]
  by_cases hworld : elsewhere = world
  · subst hworld
    cases hold : board.stones[elsewhere]? with
    | none => simp [Dict.find?_insert, hempty]
    | some stones => simp [Dict.find?_insert]
  · have hne : world ≠ elsewhere := Ne.symm hworld
    by_cases hlt : elsewhere < board.stones.length
    · simp [hworld, hne, hlt]
    · have hnone := List.getElem?_eq_none (Nat.le_of_not_lt hlt)
      simp only [hworld, hne, hlt, false_and, if_false, hnone]
      split <;> simp [hempty]

end HintBoard

namespace Hint

variable {pathfinder : Pathfinder} {placement : Placement}

/-! ## Boards in order -/

/-- A stone may tell of a location of its world: it stands in the overworld or in a
grotto, and a full search reaches it without what lies at the location. -/
structure MayTell (pathfinder : Pathfinder) (placement : Placement) (location : Location)
    (stone : GossipId) : Prop where
  regular : ∃ world entry, pathfinder.world? location.world = some world ∧
    world.gossips[stone]? = some entry ∧ (entry.kind = .stone ∨ entry.kind = .grotto)
  reached : ∃ search world,
    pathfinder.run none
      { items? := some placement, starting? := none, recursive := true, forbidden := [location],
        stopAtGoal := false, gossips := true } = .ok search ∧
    search.state.worlds[location.world]? = some world ∧ world.gossips.has stone = true

end Hint

/-- The locations that are hinted at are those that stones tell of, each by one stone that
may tell of it, and they are required. -/
structure HintBoard.InOrder (pathfinder : Pathfinder) (placement : Placement)
    (required : List Location) (board : HintBoard) : Prop where
  hinted : ∀ location, board.hinted.has location = true ↔
    ∃ world stone, board.hint? world stone = some (.hero location)
  once : ∀ {location world elsewhere stone other},
    board.hint? world stone = some (.hero location) →
    board.hint? elsewhere other = some (.hero location) → elsewhere = world ∧ other = stone
  told : ∀ {world stone hint}, board.hint? world stone = some hint →
    ∃ location, hint = .hero location ∧ location.world = world ∧
      Hint.MayTell pathfinder placement location stone
  required : ∀ {location}, board.hinted.has location = true → location ∈ required

namespace HintBoard

variable {pathfinder : Pathfinder} {placement : Placement} {required : List Location}

theorem inOrder_empty (players : Nat) : InOrder pathfinder placement required (empty players) where
  hinted location := by
    have hnone : (empty players).hinted.has location = false := rfl
    simp [hnone]
  once htold := by simp at htold
  told htold := by simp at htold
  required hhinted := by cases hhinted

theorem InOrder.mono {more : List Location} {board : HintBoard}
    (horder : InOrder pathfinder placement required board) (hsubset : required ⊆ more) :
    InOrder pathfinder placement more board :=
  ⟨horder.hinted, horder.once, horder.told, fun hhinted => hsubset (horder.required hhinted)⟩

/-- The board with a hero hint more. -/
def giveHero (board : HintBoard) (location : Location) (stone : GossipId) : HintBoard :=
  (board.markHinted location).assign location.world stone (.hero location)

theorem hint?_giveHero (board : HintBoard) (location : Location) (stone : GossipId)
    (world : WorldId) (other : GossipId) :
    (board.giveHero location stone).hint? world other =
      if world = location.world ∧ other = stone then some (.hero location)
      else board.hint? world other := by
  rw [giveHero, hint?_assign, hint?_markHinted]

/-- A board stays in order when a required location that is not hinted at is told of by a
stone that may do so and has no hint. -/
theorem InOrder.giveHero {board : HintBoard} {location : Location} {stone : GossipId}
    (horder : InOrder pathfinder placement required board) (hrequired : location ∈ required)
    (hunhinted : board.hinted.has location = false)
    (hfree : board.hint? location.world stone = none)
    (hmay : Hint.MayTell pathfinder placement location stone) :
    InOrder pathfinder placement required (board.giveHero location stone) := by
  have hunheard : ∀ {world other}, board.hint? world other ≠ some (.hero location) := by
    intro world other htold
    rw [(horder.hinted location).mpr ⟨world, other, htold⟩] at hunhinted
    cases hunhinted
  have hmark : ∀ other, (board.giveHero location stone).hinted.has other = true ↔
      other = location ∨ board.hinted.has other = true := by
    intro other
    rw [HintBoard.giveHero, hinted_assign, markHinted, LocationSet.has_insert, Bool.or_eq_true,
      beq_iff_eq]
  constructor
  case hinted =>
    intro other
    simp only [hmark, hint?_giveHero]
    constructor
    · rintro (rfl | hhinted)
      · exact ⟨other.world, stone, if_pos ⟨rfl, rfl⟩⟩
      · rcases (horder.hinted other).mp hhinted with ⟨world, place, htold⟩
        refine ⟨world, place, ?_⟩
        rw [if_neg]
        · exact htold
        · rintro ⟨rfl, rfl⟩
          cases hfree.symm.trans htold
    · rintro ⟨world, place, htold⟩
      split at htold
      · cases htold
        exact .inl rfl
      · exact .inr ((horder.hinted other).mpr ⟨world, place, htold⟩)
  case once =>
    intro other world elsewhere place spot hfirst hsecond
    rw [hint?_giveHero] at hfirst hsecond
    split at hfirst <;> split at hsecond
    case isTrue.isTrue hplace hspot =>
      exact ⟨hspot.1.trans hplace.1.symm, hspot.2.trans hplace.2.symm⟩
    case isTrue.isFalse =>
      cases hfirst
      exact absurd hsecond hunheard
    case isFalse.isTrue =>
      cases hsecond
      exact absurd hfirst hunheard
    case isFalse.isFalse => exact horder.once hfirst hsecond
  case told =>
    intro world place hint htold
    rw [hint?_giveHero] at htold
    split at htold
    case isTrue hplace =>
      cases htold
      exact ⟨location, rfl, hplace.1.symm, hplace.2 ▸ hmay⟩
    case isFalse => exact horder.told htold
  case required =>
    intro other hhinted
    rcases (hmark other).mp hhinted with rfl | hhinted
    · exact hrequired
    · exact horder.required hhinted

/-! ## Turns -/

/-- Since an earlier board hints have been given to some stones, in good order. -/
structure Grown (pathfinder : Pathfinder) (placement : Placement) (required : List Location)
    (before : HintBoard) (stones : List (WorldId × GossipId)) (board : HintBoard) : Prop where
  order : board.InOrder pathfinder placement required
  kept : ∀ {world stone hint}, before.hint? world stone = some hint →
    board.hint? world stone = some hint
  nodup : stones.Nodup
  fresh : ∀ world stone, (world, stone) ∈ stones ↔
    board.isAssigned world stone = true ∧ before.isAssigned world stone = false

variable {before board : HintBoard} {stones : List (WorldId × GossipId)}

theorem InOrder.grown (horder : board.InOrder pathfinder placement required) :
    Grown pathfinder placement required board [] board where
  order := horder
  kept htold := htold
  nodup := .nil
  fresh world stone := by cases board.isAssigned world stone <;> simp

/-- Hints that are given in turn are given in good order. -/
theorem Grown.giveHero {location : Location} {stone : GossipId}
    (hgrown : Grown pathfinder placement required before stones board)
    (hrequired : location ∈ required) (hunhinted : board.hinted.has location = false)
    (hfree : board.isAssigned location.world stone = false)
    (hmay : Hint.MayTell pathfinder placement location stone) :
    Grown pathfinder placement required before ((location.world, stone) :: stones)
      (board.giveHero location stone) := by
  have hnone := (isAssigned_eq_false_iff board location.world stone).mp hfree
  have hassigned : ∀ world other, (board.giveHero location stone).isAssigned world other = true ↔
      (world, other) = (location.world, stone) ∨ board.isAssigned world other = true := by
    intro world other
    rw [isAssigned_iff, isAssigned_iff, hint?_giveHero, Prod.mk.injEq]
    split <;> simp [*]
  have hbefore : before.isAssigned location.world stone = false := by
    rw [isAssigned_eq_false_iff, Option.eq_none_iff_forall_ne_some]
    intro hint htold
    cases hnone.symm.trans (hgrown.kept htold)
  constructor
  case order => exact hgrown.order.giveHero hrequired hunhinted hnone hmay
  case kept =>
    intro world other hint htold
    have hold := hgrown.kept htold
    rw [hint?_giveHero, if_neg]
    · exact hold
    · rintro ⟨rfl, rfl⟩
      cases hnone.symm.trans hold
  case nodup =>
    refine List.nodup_cons.mpr ⟨fun hmem => ?_, hgrown.nodup⟩
    rw [hgrown.fresh, hfree] at hmem
    cases hmem.1
  case fresh =>
    intro world other
    rw [List.mem_cons, hassigned, hgrown.fresh, Prod.mk.injEq]
    constructor
    · rintro (⟨rfl, rfl⟩ | ⟨htold, hnew⟩)
      · exact ⟨.inl ⟨rfl, rfl⟩, hbefore⟩
      · exact ⟨.inr htold, hnew⟩
    · rintro ⟨hgiven | htold, hnew⟩
      · exact .inl hgiven
      · exact .inr ⟨htold, hnew⟩

end HintBoard

namespace Hint

open HintBoard (Grown)

variable {pathfinder : Pathfinder} {placement : Placement} {required : List Location}
  {id : WorldId}

/-! ## Looking for a stone -/

theorem isRegular_iff {entry : GossipStone} :
    entry.isRegular = true ↔ entry.kind = .stone ∨ entry.kind = .grotto := by
  rw [GossipStone.isRegular, Bool.or_eq_true, beq_iff_eq, beq_iff_eq]

theorem mem_candidates {board : HintBoard} {world : World} {accepts : GossipStone → Bool}
    {state : SearchState} {stone : GossipId} :
    stone ∈ candidates board world id accepts state ↔
      ∃ reached entry, state.worlds[id]? = some reached ∧ reached.gossips.has stone = true ∧
        world.gossips[stone]? = some entry ∧ accepts entry = true ∧
        board.isAssigned id stone = false := by
  unfold candidates
  cases state.worlds[id]? with
  | none => simp
  | some reached =>
      cases hentry : world.gossips[stone]? with
      | none => simp [hentry]
      | some entry => simp [hentry]

/-- Looking for a stone succeeds when the full search does and the world exists; the stone
is chosen from the candidates, and nothing is written. -/
theorem findStone_eq_ok_iff {hidden : List Location} {accepts : GossipStone → Bool}
    {state next : HintState} {choice : Option GossipId} :
    (findStone pathfinder placement id hidden accepts state).result = .ok (choice, next) ↔
      ∃ search world, pathfinder.run none (searchOptions placement hidden) = .ok search ∧
        pathfinder.world? id = some world ∧
        state.source.choose (candidates state.board world id accepts search.state) =
          (choice, next.source) ∧
        next.board = state.board := by
  simp only [findStone, Pathfinder.runLogged, Recorded.result_bind, Recorded.result_mapFault,
    Recorded.result_lift, Recorded.result_note, Recorded.result_pure]
  cases hrun : pathfinder.run none (searchOptions placement hidden) with
  | error fault => simp [bind, Except.bind, Except.mapError]
  | ok search =>
      cases hworld : pathfinder.world? id with
      | none => simp [bind, Except.bind, Except.mapError]
      | some world =>
          rcases next with ⟨board, source⟩
          rcases hchoose : state.source.choose (candidates state.board world id accepts
            search.state) with ⟨stone, later⟩
          simp [bind, Except.bind, Except.mapError, hchoose, eq_comm, and_comm, and_assoc]

/-- A stone that is found for a location of its world may tell of it and has no hint, and
nothing is written. -/
theorem findStone_eq_ok {location : Location} {state next : HintState} {choice : Option GossipId}
    (hfind : (findStone pathfinder placement location.world [location] GossipStone.isRegular
      state).result = .ok (choice, next)) :
    next.board = state.board ∧ ∀ stone, choice = some stone →
      MayTell pathfinder placement location stone ∧
        state.board.isAssigned location.world stone = false := by
  rcases findStone_eq_ok_iff.mp hfind with ⟨search, world, hrun, hworld, hchoose, hboard⟩
  refine ⟨hboard, fun stone hstone => ?_⟩
  have hmem := RandomSource.mem_of_choose ((congrArg Prod.fst hchoose).trans hstone)
  rcases mem_candidates.mp hmem with ⟨state, entry, hstate, hhas, hentry, hregular, hfree⟩
  exact ⟨⟨⟨world, entry, hworld, hentry, isRegular_iff.mp hregular⟩, search, state, hrun, hstate,
    hhas⟩, hfree⟩

/-- Looking for a stone in vain leaves everything as it was. -/
theorem findStone_eq_error {hidden : List Location} {accepts : GossipStone → Bool}
    {state : HintState} {interrupted : Interrupted}
    (hfind : (findStone pathfinder placement id hidden accepts state).result =
      .error interrupted) : interrupted.state = state := by
  simp only [findStone, Recorded.result_bind, Recorded.result_mapFault] at hfind
  cases hrun : (pathfinder.runLogged none (searchOptions placement hidden)).result with
  | error fault =>
      rw [hrun] at hfind
      cases hfind
      rfl
  | ok reached =>
      rw [hrun] at hfind
      cases hworld : pathfinder.world? id with
      | none =>
          simp only [hworld] at hfind
          cases hfind
          rfl
      | some world =>
          simp only [hworld] at hfind
          cases hfind

/-! ## Giving hints in turn -/

/-- Locations whose turn is still to come. -/
structure Waiting (required : List Location) (id : WorldId) (board : HintBoard)
    (locations : List Location) : Prop where
  nodup : locations.Nodup
  world : ∀ location ∈ locations, location.world = id
  required : ∀ location ∈ locations, location ∈ required
  unhinted : ∀ location ∈ locations, board.hinted.has location = false

theorem Waiting.tail {board : HintBoard} {location : Location} {rest : List Location}
    (hwaiting : Waiting required id board (location :: rest)) : Waiting required id board rest where
  nodup := (List.nodup_cons.mp hwaiting.nodup).2
  world other hother := hwaiting.world other (List.mem_cons_of_mem _ hother)
  required other hother := hwaiting.required other (List.mem_cons_of_mem _ hother)
  unhinted other hother := hwaiting.unhinted other (List.mem_cons_of_mem _ hother)

theorem Waiting.giveHero {board : HintBoard} {location : Location} {rest : List Location}
    (hwaiting : Waiting required id board (location :: rest)) (stone : GossipId) :
    Waiting required id (board.giveHero location stone) rest where
  nodup := hwaiting.tail.nodup
  world := hwaiting.tail.world
  required := hwaiting.tail.required
  unhinted other hother := by
    have hne : other ≠ location := by
      rintro rfl
      exact (List.nodup_cons.mp hwaiting.nodup).1 hother
    rw [HintBoard.giveHero, HintBoard.hinted_assign, HintBoard.markHinted, LocationSet.has_insert,
      hwaiting.tail.unhinted other hother, beq_eq_false_iff_ne.mpr hne, Bool.or_self]

/-- What hints have been given when placing them has come to an end, good or bad. -/
def EndsGrown (pathfinder : Pathfinder) (placement : Placement) (required : List Location)
    (before : HintBoard) (count : Nat) : Except Interrupted (Nat × HintState) → Prop
  | .ok (placed, state) => placed ≤ count ∧ ∃ stones, stones.length = placed ∧
      Grown pathfinder placement required before stones state.board
  | .error interrupted => ∃ stones,
      Grown pathfinder placement required before stones interrupted.state.board

/-- Hints that are given in turn keep the board in order, and are counted. -/
theorem placeInTurn_grown {before board : HintBoard} {count : Nat} {locations : List Location}
    {stones : List (WorldId × GossipId)} (source : RandomSource)
    (hgrown : Grown pathfinder placement required before stones board)
    (hwaiting : Waiting required id board locations) (hcount : stones.length ≤ count) :
    EndsGrown pathfinder placement required before count
      (placeInTurn pathfinder placement id count stones.length locations
        ⟨board, source⟩).result := by
  induction locations generalizing stones board source with
  | nil => exact ⟨hcount, stones, rfl, hgrown⟩
  | cons location rest ih =>
      rw [placeInTurn]
      split
      case isFalse => exact ⟨hcount, stones, rfl, hgrown⟩
      case isTrue hlt =>
        obtain rfl := hwaiting.world location List.mem_cons_self
        rw [Recorded.result_bind]
        cases hfind : (findStone pathfinder placement location.world [location]
            GossipStone.isRegular ⟨board, source⟩).result with
        | error interrupted =>
            have hsame := congrArg HintState.board (findStone_eq_error hfind)
            exact ⟨stones, hsame ▸ hgrown⟩
        | ok found =>
            rcases found with ⟨choice, ⟨same, source'⟩⟩
            rcases findStone_eq_ok hfind with ⟨rfl, hstone⟩
            cases choice with
            | none => exact ih source' hgrown hwaiting.tail hcount
            | some stone =>
                rcases hstone stone rfl with ⟨hmay, hfree⟩
                have hgiven := hgrown.giveHero (hwaiting.required location List.mem_cons_self)
                  (hwaiting.unhinted location List.mem_cons_self) hfree hmay
                exact ih source' hgiven (hwaiting.giveHero stone) hlt

/-- A call keeps the board in order, and counts the hints that it gives. -/
theorem placeHeroHints_grown {count : Nat} {state : HintState} (hnodup : required.Nodup)
    {more : List Location} (hsubset : required ⊆ more)
    (horder : state.board.InOrder pathfinder placement more) :
    EndsGrown pathfinder placement more state.board count
      (placeHeroHints pathfinder placement required id count state).result := by
  rw [placeHeroHints]
  generalize hunhinted : (required.filter fun location =>
    location.world == id && !state.board.hinted.has location) = unhinted
  have hperm := state.source.shuffle_perm unhinted
  have hmem : ∀ location ∈ (state.source.shuffle unhinted).1.reverse,
      location ∈ required ∧ location.world = id ∧ state.board.hinted.has location = false := by
    intro location hlocation
    rw [List.mem_reverse, hperm.mem_iff, ← hunhinted, List.mem_filter] at hlocation
    simpa using hlocation
  have hwaiting : Waiting more id state.board (state.source.shuffle unhinted).1.reverse := by
    constructor
    case nodup => exact List.nodup_reverse.mpr (hperm.nodup_iff.mpr (hunhinted ▸ hnodup.filter _))
    case world => exact fun location hlocation => (hmem location hlocation).2.1
    case required => exact fun location hlocation => hsubset (hmem location hlocation).1
    case unhinted => exact fun location hlocation => (hmem location hlocation).2.2
  exact placeInTurn_grown _ horder.grown hwaiting (Nat.zero_le _)

/-! ## Calls -/

/-- A call for hero hints, and the source of its choices. -/
structure Call where
  required : List Location
  id : WorldId
  count : Nat
  source : RandomSource

namespace Call

/-- How a call ends on a board. -/
def outcome (call : Call) (pathfinder : Pathfinder) (placement : Placement) (board : HintBoard) :
    Except Interrupted (Nat × HintState) :=
  (placeHeroHints pathfinder placement call.required call.id call.count
    ⟨board, call.source⟩).result

/-- The board after a call, whether it succeeds or fails. -/
def boardAfter (pathfinder : Pathfinder) (placement : Placement) (board : HintBoard)
    (call : Call) : HintBoard :=
  match call.outcome pathfinder placement board with
  | .ok (_, state) => state.board
  | .error interrupted => interrupted.state.board

end Call

/-- The board after a series of calls that begins without hints. -/
def boardAfterAll (pathfinder : Pathfinder) (placement : Placement) (players : Nat)
    (calls : List Call) : HintBoard :=
  calls.foldl (Call.boardAfter pathfinder placement) (.empty players)

/-- All locations that are required by some call. -/
def requiredByAny (calls : List Call) : List Location :=
  calls.flatMap Call.required

/-- A call on a board in order keeps it in order, whatever was required before. -/
theorem Call.grown {call : Call} {board : HintBoard} {more : List Location}
    (hnodup : call.required.Nodup) (hsubset : call.required ⊆ more)
    (horder : board.InOrder pathfinder placement more) :
    (∃ stones, Grown pathfinder placement more board stones
      (call.boardAfter pathfinder placement board)) ∧
    ∀ placed state, call.outcome pathfinder placement board = .ok (placed, state) →
      placed ≤ call.count ∧ ∃ stones, stones.length = placed ∧
        Grown pathfinder placement more board stones
          (call.boardAfter pathfinder placement board) := by
  have hends : EndsGrown pathfinder placement more board call.count
      (call.outcome pathfinder placement board) :=
    placeHeroHints_grown hnodup hsubset horder
  cases houtcome : call.outcome pathfinder placement board with
  | error interrupted =>
      rw [houtcome] at hends
      rw [Call.boardAfter, houtcome]
      exact ⟨hends, fun placed state herror => nomatch herror⟩
  | ok result =>
      rw [houtcome] at hends
      rw [Call.boardAfter, houtcome]
      rcases hends with ⟨hcount, stones, hlength, hgrown⟩
      refine ⟨⟨stones, hgrown⟩, fun placed state hok => ?_⟩
      cases hok
      exact ⟨hcount, stones, hlength, hgrown⟩

/-- A series of calls leaves the board in order. -/
theorem inOrder_boardAfterAll {players : Nat} {calls : List Call}
    (hnodup : ∀ call ∈ calls, call.required.Nodup) :
    (boardAfterAll pathfinder placement players calls).InOrder pathfinder placement
      (requiredByAny calls) := by
  induction calls using List.reverseRecOn with
  | nil => exact HintBoard.inOrder_empty players
  | append_singleton calls call ih =>
      have hbefore := ih fun other hother => hnodup other (List.mem_append_left _ hother)
      have hmore : requiredByAny calls ⊆ requiredByAny (calls ++ [call]) := by simp [requiredByAny]
      have horder := hbefore.mono hmore
      have hlast := hnodup call (List.mem_append_right _ List.mem_cons_self)
      rw [boardAfterAll, List.foldl_append]
      rcases (call.grown hlast (by simp [requiredByAny]) horder).1 with ⟨stones, hgrown⟩
      exact hgrown.order

/-- Whatever calls are made, each leaves the board in order, overwrites no hint and, if it
succeeds, answers how many stones it has given hints, which are not more than asked for. -/
theorem placeHeroHints_keeps_order (pathfinder : Pathfinder) (placement : Placement)
    (players : Nat) (calls : List Call) (last : Call)
    (hnodup : ∀ call ∈ calls ++ [last], call.required.Nodup) :
    let before := boardAfterAll pathfinder placement players calls
    let after := boardAfterAll pathfinder placement players (calls ++ [last])
    after.InOrder pathfinder placement (requiredByAny (calls ++ [last])) ∧
      (∀ world stone hint, before.hint? world stone = some hint →
        after.hint? world stone = some hint) ∧
      ∀ placed state, last.outcome pathfinder placement before = .ok (placed, state) →
        placed ≤ last.count ∧ ∃ stones : List (WorldId × GossipId), stones.Nodup ∧
          stones.length = placed ∧ ∀ world stone, (world, stone) ∈ stones ↔
            after.isAssigned world stone = true ∧ before.isAssigned world stone = false := by
  intro before after
  have hafter : after = last.boardAfter pathfinder placement before :=
    List.foldl_concat ..
  have horder : before.InOrder pathfinder placement (requiredByAny (calls ++ [last])) :=
    (inOrder_boardAfterAll fun call hcall => hnodup call (List.mem_append_left _ hcall)).mono
      (by simp [requiredByAny])
  have hlast := last.grown (hnodup last (List.mem_append_right _ List.mem_cons_self))
    (by simp [requiredByAny]) horder
  rw [hafter]
  rcases hlast with ⟨⟨stones, hgrown⟩, hplaced⟩
  refine ⟨hgrown.order, fun world stone hint => hgrown.kept, fun placed state houtcome => ?_⟩
  rcases hplaced placed state houtcome with ⟨hcount, given, hlength, hgiven⟩
  exact ⟨hcount, given, hgiven.nodup, hlength, hgiven.fresh⟩

/-! ### Two stones in a gorge

One stone is read by the light of a lamp, and the other hangs on a rope's end.  Lamp and rope
lie in two chests at the start, where a stone of the moon stands, too. -/

/-- The gorge, in which the first chest has the lamp, and the second one the rope. -/
def gorge : World where
  areas := [
    ⟨"OOT Gorge", .oot, none, [⟨0, .const true⟩, ⟨1, .const true⟩], [], [],
      [⟨0, .hasItem 0 1⟩, ⟨1, .hasItem 1 1⟩, ⟨2, .const true⟩]⟩]
  checks := [
    ⟨"OOT Lamp Chest", .oot, "OOT_GORGE", "OOT_LAMP", .numeric .chest 0, .anywhere, none⟩,
    ⟨"OOT Rope Chest", .oot, "OOT_GORGE", "OOT_ROPE", .numeric .chest 1, .anywhere, none⟩]
  gossips := [
    ⟨"OOT Dark Stone", .oot, .grotto⟩, ⟨"OOT Steep Stone", .oot, .stone⟩,
    ⟨"OOT Moon Stone", .oot, .moon⟩]
  dungeons := .empty
  starts := [0]
  symbols := ⟨⟨["OOT_LAMP", "OOT_ROPE"], by decide⟩, .empty, .empty⟩

/-- A player of it, who starts with nothing. -/
def gorgeSolver : Pathfinder where
  players := [⟨gorge, ⟨#[]⟩⟩]
  starting := .none 1
  goal := .never

/-- A call for two hints, about both chests. -/
def gorgeCall : Call :=
  ⟨[⟨0, 0⟩, ⟨0, 1⟩], 0, 2, .ofWords []⟩

/-- Each stone tells of the chest without which it is still reached: of the lamp the one on
the rope, and of the rope the one that the lamp lights. -/
theorem placeHeroHints_keeps_order_gorge :
    let placement := .vanilla [gorge]
    let lampCall : Call := ⟨[⟨0, 0⟩], 0, 1, .ofWords []⟩
    let before := boardAfterAll gorgeSolver placement 1 [lampCall]
    let after := boardAfterAll gorgeSolver placement 1 [lampCall, gorgeCall]
    (before.hint? 0 1 = some (.hero ⟨0, 0⟩) ∧ before.hint? 0 0 = none) ∧
      (after.hint? 0 1 = some (.hero ⟨0, 0⟩) ∧ after.hint? 0 0 = some (.hero ⟨0, 1⟩) ∧
        after.hint? 0 2 = none) ∧
      MayTell gorgeSolver placement ⟨0, 0⟩ 1 ∧ MayTell gorgeSolver placement ⟨0, 1⟩ 0 ∧
      (gorgeCall.outcome gorgeSolver placement before).toOption.map Prod.fst = some 1 := by
  intro placement lampCall before after
  have hbefore : before.hint? 0 1 = some (.hero ⟨0, 0⟩) ∧ before.hint? 0 0 = none := by
    decide +kernel
  have hafter : after.hint? 0 0 = some (.hero ⟨0, 1⟩) ∧ after.hint? 0 2 = none := by
    decide +kernel
  have hnodup : ∀ call ∈ [lampCall] ++ [gorgeCall], call.required.Nodup := by decide
  rcases placeHeroHints_keeps_order gorgeSolver placement 1 [lampCall] gorgeCall hnodup with
    ⟨horder, hkept, -⟩
  have hlamp := hkept 0 1 _ hbefore.1
  have hmay : ∀ {stone location}, after.hint? 0 stone = some (.hero location) →
      MayTell gorgeSolver placement location stone := by
    intro stone location htold
    rcases horder.told htold with ⟨_, hhint, -, hmay⟩
    cases hhint
    exact hmay
  exact ⟨hbefore, ⟨hlamp, hafter⟩, hmay hlamp, hmay hafter.1, by decide +kernel⟩

end Hint

end SeedLogic
