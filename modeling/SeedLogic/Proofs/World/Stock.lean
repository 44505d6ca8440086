import SeedLogic.Proofs.World.Dungeons

/-!
# Items of checks

Every item that a check of a built world holds has a number there
(`World.Built.item_mem`): the item is numbered when its check is loaded, and names keep
their numbers.
-/

namespace SeedLogic

namespace Draft

/-- The items of all checks have numbers. -/
def Stocked (draft : Draft) : Prop :=
  ∀ check ∈ draft.checks, check.item ∈ draft.symbols.items.keys

variable {constraint : String → Constraint} {draft next : Draft}

theorem Stocked.extend {later : Draft} (hstocked : draft.Stocked)
    (hchecks : later.checks = draft.checks) (hsymbols : later.symbols.Extends draft.symbols) :
    later.Stocked := by
  intro check hcheck
  rw [hchecks] at hcheck
  exact hsymbols.items.subset (hstocked check hcheck)

theorem Stocked.declareItem (hstocked : draft.Stocked) (name : String) :
    (draft.declareItem name).Stocked :=
  hstocked.extend rfl (draft.symbols.extends_mention (.item name))

theorem Stocked.declare {declaration : Declaration} (hstocked : draft.Stocked)
    (hload : draft.declare constraint declaration = .ok next) : next.Stocked := by
  cases declaration with
  | area language entry =>
      rcases loadArea_follows hload with ⟨area, symbols, -, hextends, -, rfl⟩
      exact hstocked.extend rfl hextends
  | item name =>
      cases hload
      exact hstocked.declareItem name
  | check game raw =>
      rcases loadCheck_eq_ok_iff.mp hload with ⟨-, kind, -, rfl⟩
      refine List.forall_mem_append.mpr ⟨hstocked.declareItem _, ?_⟩
      rw [List.forall_mem_singleton]
      exact draft.symbols.knows_mention (.item (game.symbolName raw.item))
  | stone game entry =>
      rcases loadGossip_eq_ok_iff.mp hload with ⟨-, rfl⟩
      exact hstocked
  | start name =>
      cases hload
      exact hstocked

theorem stocked_of_loadAll {tables : List GameTable}
    (hload : (loadAll constraint .empty tables).result = .ok draft) : draft.Stocked :=
  Outcome.foldlM_preserves Stocked.declare (fun _ hcheck => absurd hcheck List.not_mem_nil)
    (loadAll_eq_ok_iff.mp hload).2

end Draft

/-- The items of the checks of a built world have numbers. -/
theorem World.Built.item_mem {world : World} (hbuilt : world.Built) {id : CheckId} {check : Check}
    (hcheck : world.checks[id]? = some check) : check.item ∈ world.symbols.items.keys := by
  rcases hbuilt with ⟨tables, options, constraint, hbuild⟩
  rcases World.build_eq_ok_iff.mp hbuild with ⟨draft, hload, hlink⟩
  have hstocked := Draft.stocked_of_loadAll hload
  rcases Draft.link_eq_ok_iff.mp hlink with ⟨areas, starts, -, -, -, rfl⟩
  -- Tags leave the items of checks alone.
  rw [Draft.getElem?_foldl_tagChecks, Option.map_eq_some_iff] at hcheck
  rcases hcheck with ⟨loaded, hloaded, rfl⟩
  exact hstocked loaded (List.mem_of_getElem? hloaded)

end SeedLogic
