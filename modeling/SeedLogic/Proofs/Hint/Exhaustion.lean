import SeedLogic.Proofs.Hint.Bookkeeping

/-!
# Hints are placed as long as stones are left

Looking for a stone comes back without one exactly when none is left
(`eq_none_iff_of_findStone`).  Hints given later take stones away and never give any back,
so that a location passed over once need not be tried again: if fewer hints are placed than
asked for, no stone is left for any location without a hint (`placeHeroHints_exhausts`).
-/

namespace SeedLogic

/-! ## Boards that grow -/

/-- What a board hints at, and which stones have hints on it, stays so on another. -/
structure HintBoard.Grows (before after : HintBoard) : Prop where
  hinted : ∀ {location}, before.hinted.has location = true → after.hinted.has location = true
  assigned : ∀ {world stone}, before.isAssigned world stone = true →
    after.isAssigned world stone = true

namespace HintBoard

variable {before between after : HintBoard}

theorem Grows.refl (board : HintBoard) : Grows board board :=
  ⟨fun hhinted => hhinted, fun hassigned => hassigned⟩

theorem Grows.trans (hfirst : Grows before between) (hsecond : Grows between after) :
    Grows before after :=
  ⟨fun hhinted => hsecond.hinted (hfirst.hinted hhinted),
    fun hassigned => hsecond.assigned (hfirst.assigned hassigned)⟩

theorem grows_markHinted (board : HintBoard) (location : Location) :
    Grows board (board.markHinted location) where
  hinted hhinted := by
    rw [markHinted, LocationSet.has_insert, hhinted, Bool.or_true]
  assigned hassigned := hassigned

theorem grows_assign (board : HintBoard) (world : WorldId) (stone : GossipId) (hint : Hint) :
    Grows board (board.assign world stone hint) where
  hinted hhinted := hhinted
  assigned {elsewhere other} hassigned := by
    rcases (isAssigned_iff board elsewhere other).mp hassigned with ⟨old, hold⟩
    rw [isAssigned_iff, hint?_assign]
    split
    case isTrue => exact ⟨hint, rfl⟩
    case isFalse => exact ⟨old, hold⟩

end HintBoard

namespace Hint

variable {pathfinder : Pathfinder} {placement : Placement} {id : WorldId}

/-! ## Stones that are left -/

/-- A stone of a world is on offer: it is accepted, and a full search without the hidden
locations reaches it. -/
structure OnOffer (pathfinder : Pathfinder) (placement : Placement) (id : WorldId)
    (hidden : List Location) (accepts : GossipStone → Bool) (stone : GossipId) : Prop where
  accepted : ∃ world entry, pathfinder.world? id = some world ∧
    world.gossips[stone]? = some entry ∧ accepts entry = true
  reached : ∃ search world,
    pathfinder.run none
      { items? := some placement, starting? := none, recursive := true, forbidden := hidden,
        stopAtGoal := false, gossips := true } = .ok search ∧
    search.state.worlds[id]? = some world ∧ world.gossips.has stone = true

/-- A stone is left: it is on offer and has no hint. -/
structure Left (pathfinder : Pathfinder) (placement : Placement) (id : WorldId)
    (hidden : List Location) (accepts : GossipStone → Bool) (board : HintBoard)
    (stone : GossipId) : Prop where
  onOffer : OnOffer pathfinder placement id hidden accepts stone
  free : board.isAssigned id stone = false

section Looking

variable {hidden : List Location} {accepts : GossipStone → Bool}

/-- The candidates of a full search are the stones that are left. -/
theorem mem_candidates_iff_left {board : HintBoard} {search : Search} {world : World}
    (hrun : pathfinder.run none (searchOptions placement hidden) = .ok search)
    (hworld : pathfinder.world? id = some world) {stone : GossipId} :
    stone ∈ candidates board world id accepts search.state ↔
      Left pathfinder placement id hidden accepts board stone := by
  rw [mem_candidates]
  constructor
  · rintro ⟨reached, entry, hreached, hhas, hentry, haccepts, hfree⟩
    exact ⟨⟨⟨world, entry, hworld, hentry, haccepts⟩, search, reached, hrun, hreached, hhas⟩, hfree⟩
  · rintro ⟨⟨⟨world', entry, hworld', hentry, haccepts⟩, search', reached, hrun', hreached, hhas⟩,
      hfree⟩
    cases hworld.symm.trans hworld'
    cases hrun.symm.trans hrun'
    exact ⟨reached, entry, hreached, hhas, hentry, haccepts, hfree⟩

variable {state next : HintState} {choice : Option GossipId}

/-- A stone that is found is left. -/
theorem left_of_findStone {stone : GossipId}
    (hfind : (findStone pathfinder placement id hidden accepts state).result =
      .ok (some stone, next)) :
    Left pathfinder placement id hidden accepts state.board stone := by
  rcases findStone_eq_ok_iff.mp hfind with ⟨search, world, hrun, hworld, hchoose, -⟩
  rw [← mem_candidates_iff_left hrun hworld]
  exact RandomSource.mem_of_choose (congrArg Prod.fst hchoose)

/-- No stone is found exactly when none is left. -/
theorem eq_none_iff_of_findStone
    (hfind : (findStone pathfinder placement id hidden accepts state).result =
      .ok (choice, next)) :
    choice = none ↔ ∀ stone, ¬Left pathfinder placement id hidden accepts state.board stone := by
  rcases findStone_eq_ok_iff.mp hfind with ⟨search, world, hrun, hworld, hchoose, -⟩
  obtain rfl : _ = choice := congrArg Prod.fst hchoose
  rw [RandomSource.choose_eq_none_iff, List.eq_nil_iff_forall_not_mem]
  simp only [mem_candidates_iff_left hrun hworld]

/-- Looking for a stone succeeds when the full search does and the world exists. -/
theorem exists_findStone_iff :
    (∃ found, (findStone pathfinder placement id hidden accepts state).result = .ok found) ↔
      (∃ search, pathfinder.run none (searchOptions placement hidden) = .ok search) ∧
        ∃ world, pathfinder.world? id = some world := by
  constructor
  · rintro ⟨⟨choice, next⟩, hfind⟩
    rcases findStone_eq_ok_iff.mp hfind with ⟨search, world, hrun, hworld, -, -⟩
    exact ⟨⟨search, hrun⟩, world, hworld⟩
  · rintro ⟨⟨search, hrun⟩, world, hworld⟩
    exact ⟨⟨_, ⟨state.board, _⟩⟩, findStone_eq_ok_iff.mpr ⟨search, world, hrun, hworld, rfl, rfl⟩⟩

end Looking

/-! ## Locations that are used up -/

/-- The full search without a location succeeds, and every stone of the overworld or of a
grotto that it reaches has a hint. -/
structure UsedUp (pathfinder : Pathfinder) (placement : Placement) (id : WorldId)
    (board : HintBoard) (location : Location) : Prop where
  succeeds : ∃ search,
    pathfinder.run none
      { items? := some placement, starting? := none, recursive := true, forbidden := [location],
        stopAtGoal := false, gossips := true } = .ok search
  assigned : ∀ stone, OnOffer pathfinder placement id [location]
    (fun entry => entry.kind == .stone || entry.kind == .grotto) stone →
      board.isAssigned id stone = true

theorem UsedUp.grows {before after : HintBoard} {location : Location}
    (hused : UsedUp pathfinder placement id before location) (hgrows : before.Grows after) :
    UsedUp pathfinder placement id after location :=
  ⟨hused.succeeds, fun stone honOffer => hgrows.assigned (hused.assigned stone honOffer)⟩

/-- A location for which no stone is found is used up. -/
theorem usedUp_of_findStone {location : Location} {state next : HintState}
    (hfind : (findStone pathfinder placement id [location] GossipStone.isRegular state).result =
      .ok (none, next)) :
    UsedUp pathfinder placement id state.board location where
  succeeds := (exists_findStone_iff.mp ⟨_, hfind⟩).1
  assigned stone honOffer := by
    cases hassigned : state.board.isAssigned id stone with
    | true => rfl
    | false => exact absurd ⟨honOffer, hassigned⟩ ((eq_none_iff_of_findStone hfind).mp rfl stone)

/-! ## Placing hints -/

/-- Hints that are placed in turn: not more than asked for, and if fewer, every location
whose turn it was is hinted at or used up. -/
structure EndsUsedUp (pathfinder : Pathfinder) (placement : Placement) (id : WorldId)
    (count : Nat) (locations : List Location) (before : HintBoard) (placed : Nat)
    (after : HintBoard) : Prop where
  le : placed ≤ count
  grows : before.Grows after
  usedUp : placed < count → ∀ location ∈ locations, after.hinted.has location = true ∨
    UsedUp pathfinder placement id after location

/-- What one turn has settled about its location remains settled to the end. -/
theorem EndsUsedUp.cons {count placed : Nat} {location : Location} {rest : List Location}
    {before between after : HintBoard}
    (hends : EndsUsedUp pathfinder placement id count rest between placed after)
    (hgrows : before.Grows between)
    (hsettled : between.hinted.has location = true ∨
      UsedUp pathfinder placement id between location) :
    EndsUsedUp pathfinder placement id count (location :: rest) before placed after where
  le := hends.le
  grows := hgrows.trans hends.grows
  usedUp hfewer := by
    rw [List.forall_mem_cons]
    exact ⟨hsettled.imp hends.grows.hinted (·.grows hends.grows), hends.usedUp hfewer⟩

theorem placeInTurn_usedUp {count before : Nat} {locations : List Location}
    {state : HintState} (hcount : before ≤ count) {placed : Nat} {next : HintState}
    (hplace : (placeInTurn pathfinder placement id count before locations state).result =
      .ok (placed, next)) :
    EndsUsedUp pathfinder placement id count locations state.board placed next.board := by
  induction locations generalizing before state with
  | nil =>
      cases hplace
      exact ⟨hcount, .refl _, fun _ => nofun⟩
  | cons location rest ih =>
      rw [placeInTurn] at hplace
      split at hplace
      case isFalse hfull =>
        cases hplace
        exact ⟨hcount, .refl _, fun hfewer => absurd hfewer hfull⟩
      case isTrue hlt =>
        rw [Recorded.result_bind] at hplace
        rcases Outcome.bind_eq_ok.mp hplace with ⟨⟨choice, found⟩, hfind, hrest⟩
        rcases findStone_eq_ok_iff.mp hfind with ⟨-, -, -, -, -, hboard⟩
        cases choice with
        | none =>
            have hends := ih hcount hrest
            rw [hboard] at hends
            exact hends.cons (.refl _) (.inr (usedUp_of_findStone hfind))
        | some stone =>
            have hends := ih hlt hrest
            have hgrows := (found.board.grows_markHinted location).trans
              (HintBoard.grows_assign _ id stone (.hero location))
            have hhinted : (found.board.markHinted location).hinted.has location = true := by
              rw [HintBoard.markHinted, LocationSet.has_insert, beq_self_eq_true, Bool.true_or]
            rw [hboard] at hends hgrows hhinted
            exact hends.cons hgrows (.inl hhinted)

/-- A call places no more hints than asked for, and if fewer, no stone is left for any
required location of the world that is not hinted at.  Each search for a stone succeeds when
the full search does, finds none exactly when none is left, and otherwise one that is. -/
theorem placeHeroHints_exhausts (pathfinder : Pathfinder) (placement : Placement)
    (required : List Location) (id : WorldId) (count : Nat) (state : HintState) :
    (∀ placed next,
      (placeHeroHints pathfinder placement required id count state).result = .ok (placed, next) →
      placed ≤ count ∧ (placed < count → ∀ location ∈ required, location.world = id →
        next.board.hinted.has location = false →
          UsedUp pathfinder placement id next.board location)) ∧
    ∀ (hidden : List Location) (accepts : GossipStone → Bool),
      ((∃ found, (findStone pathfinder placement id hidden accepts state).result = .ok found) ↔
        (∃ search,
          pathfinder.run none
            { items? := some placement, starting? := none, recursive := true, forbidden := hidden,
              stopAtGoal := false, gossips := true } = .ok search) ∧
          ∃ world, pathfinder.world? id = some world) ∧
      ∀ choice next,
        (findStone pathfinder placement id hidden accepts state).result = .ok (choice, next) →
        next.board = state.board ∧
        (choice = none ↔
          ∀ stone, ¬Left pathfinder placement id hidden accepts state.board stone) ∧
        ∀ stone, choice = some stone →
          Left pathfinder placement id hidden accepts state.board stone := by
  refine ⟨?placing, fun hidden accepts => ⟨exists_findStone_iff, ?looking⟩⟩
  case placing =>
    intro placed next hplace
    rw [placeHeroHints] at hplace
    have hends := placeInTurn_usedUp (Nat.zero_le count) hplace
    refine ⟨hends.le, fun hfewer location hrequired hworld hunhinted => ?_⟩
    have hunheard : state.board.hinted.has location = false := by
      rw [← Bool.not_eq_true] at hunhinted ⊢
      exact fun hhinted => hunhinted (hends.grows.hinted hhinted)
    have hturn : location ∈ (state.source.shuffle (required.filter fun location =>
        location.world == id && !state.board.hinted.has location)).1.reverse := by
      rw [List.mem_reverse, (state.source.shuffle_perm _).mem_iff, List.mem_filter]
      simp [hrequired, hworld, hunheard]
    refine (hends.usedUp hfewer location hturn).resolve_left ?_
    rw [hunhinted]
    exact Bool.false_ne_true
  case looking =>
    intro choice next hfind
    rcases findStone_eq_ok_iff.mp hfind with ⟨-, -, -, -, -, hboard⟩
    refine ⟨hboard, eq_none_iff_of_findStone hfind, ?_⟩
    rintro stone rfl
    exact left_of_findStone hfind

/-- The stone that the lamp lights has a hint already, and the other one tells of the lamp.
Then none is left for the rope, since without it the other one is not reached, and the one of
the moon is no such stone. -/
theorem placeHeroHints_exhausts_gorge :
    let placement := .vanilla [gorge]
    let before := (HintBoard.empty 1).assign 0 0 (.foolish "Gorge")
    ∃ next, gorgeCall.outcome gorgeSolver placement before = .ok (1, next) ∧
      next.board.hint? 0 1 = some (.hero ⟨0, 0⟩) ∧ next.board.hinted.has ⟨0, 1⟩ = false ∧
      UsedUp gorgeSolver placement 0 next.board ⟨0, 1⟩ ∧
      Left gorgeSolver placement 0 [⟨0, 0⟩] (·.kind != .moon) before 1 ∧
      ∀ stone, ¬Left gorgeSolver placement 0 [⟨0, 1⟩] (·.kind != .moon) before stone := by
  intro placement before
  have hplaced : (gorgeCall.outcome gorgeSolver placement before).toOption.map
      (fun result => (result.1, result.2.board.hint? 0 1, result.2.board.hinted.has ⟨0, 1⟩)) =
        some (1, some (.hero ⟨0, 0⟩), false) := by
    decide +kernel
  have hchoices : ∀ hidden ∈ [([⟨0, 0⟩], some 1), ([⟨0, 1⟩], none)],
      (findStone gorgeSolver placement 0 hidden.1 (·.kind != .moon)
        ⟨before, .ofWords []⟩).result.toOption.map Prod.fst = some hidden.2 := by
    decide +kernel
  rcases Outcome.exists_ok_of_toOption hplaced with ⟨⟨placed, next⟩, hcall, hview⟩
  rcases Outcome.exists_ok_of_toOption (hchoices _ List.mem_cons_self) with
    ⟨⟨lit, found⟩, hfind, hlit⟩
  rcases Outcome.exists_ok_of_toOption (hchoices _ (List.mem_cons_of_mem _ List.mem_cons_self)) with
    ⟨⟨steep, vain⟩, hvain, hsteep⟩
  obtain ⟨rfl, htold, hunhinted⟩ :
      placed = 1 ∧ next.board.hint? 0 1 = some (.hero ⟨0, 0⟩) ∧
        next.board.hinted.has ⟨0, 1⟩ = false := by
    simpa only [Prod.mk.injEq] using hview
  obtain rfl : lit = some 1 := hlit
  obtain rfl : steep = none := hsteep
  rcases placeHeroHints_exhausts gorgeSolver placement gorgeCall.required 0 gorgeCall.count
    ⟨before, .ofWords []⟩ with ⟨hplacing, hlooking⟩
  refine ⟨next, hcall, htold, hunhinted, ?_, ?_, ?_⟩
  · exact (hplacing 1 next hcall).2 (by decide) ⟨0, 1⟩ (by decide) rfl hunhinted
  · exact ((hlooking _ _).2 _ _ hfind).2.2 1 rfl
  · exact ((hlooking _ _).2 _ _ hvain).2.1.mp rfl

end Hint

end SeedLogic
