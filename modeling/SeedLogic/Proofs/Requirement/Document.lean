import SeedLogic.Proofs.Json.Decoding
import SeedLogic.Proofs.Json.Nesting
import SeedLogic.Proofs.Requirement.Atoms
import SeedLogic.Requirement.Codec

/-!
# Requirements and their documents

The document of a requirement describes it node for node, however deep it is
(`Requirement.ofJson_toJson`), as long as its numbers are words.  It is the only document of
the requirement (`Requirement.eq_toJson`), so that no text is read as a requirement that
nests deeper than texts may (`Requirement.nesting_le_of_ofText`).
-/

namespace SeedLogic.Requirement

open Json (Decoder Proper Shallow maxNesting)

/-- Identifiers have 64 bits, and counts have 32. -/
def Atom.Fits : Atom → Prop
  | .item id count => id < Nat.pow 2 64 ∧ count < Nat.pow 2 32
  | .event id => id < Nat.pow 2 64
  | .setting id => id < Nat.pow 2 64
  | .quorum count => count < Nat.pow 2 32

/-- All numbers in a requirement are words. -/
def Fits (requirement : Requirement) : Prop :=
  ∀ atom ∈ requirement.atoms, atom.Fits

mutual

/-- Reading what was written, by induction on the requirement. -/
theorem ofJson_toJson : ∀ requirement : Requirement, requirement.Fits →
    ofJson requirement.toJson = .ok requirement
  | .const value, _ => by rw [toJson, ofJson, ofForm]
  | .hasItem item count, hfits => by
      rcases hfits (.item item count) List.mem_cons_self with ⟨hitem, hcount⟩
      rw [toJson, ofJson, ofForm, Decoder.word64_natural hitem, Decoder.word32_natural hcount]
      rfl
  | .hasEvent event, hfits => by
      have hevent := hfits (.event event) List.mem_cons_self
      rw [toJson, ofJson, ofForm, Decoder.word64_natural hevent]
      rfl
  | .setting id, hfits => by
      have hid := hfits (.setting id) List.mem_cons_self
      rw [toJson, ofJson, ofForm, Decoder.word64_natural hid]
      rfl
  | .not operand, hfits => by
      rw [toJson, ofJson, ofForm, ofJson_toJson operand hfits]
      rfl
  | .and operands, hfits => by
      rw [toJson, ofJson, ofForm, ofJsonAll_toJsonAll operands hfits]
      rfl
  | .or operands, hfits => by
      rw [toJson, ofJson, ofForm, ofJsonAll_toJsonAll operands hfits]
      rfl
  | .atLeast count operands, hfits => by
      rcases List.forall_mem_cons.mp hfits with ⟨hcount, hoperands⟩
      rw [toJson, ofJson, ofForm, Decoder.word32_natural hcount,
        ofJsonAll_toJsonAll operands hoperands]
      rfl

theorem ofJsonAll_toJsonAll : ∀ operands : List Requirement,
    (∀ atom ∈ atomsOfAll operands, atom.Fits) →
      ofJsonAll (toJsonAll operands) = .ok operands
  | [], _ => by rw [toJsonAll, ofJsonAll]
  | operand :: operands, hfits => by
      rcases List.forall_mem_append.mp hfits with ⟨hoperand, hothers⟩
      rw [toJsonAll, ofJsonAll, ofJson_toJson operand hoperand,
        ofJsonAll_toJsonAll operands hothers]
      rfl

end

/-! ## Reading nothing else -/

/-- A document has the form of a requirement, and its parts are read as the operands. -/
def HasForm (json : Json) : Requirement → Prop
  | .const value => json = .object [("Const", .bool value)]
  | .hasItem item count => json = .object [("HasItem", .array [.natural item, .natural count])]
  | .hasEvent event => json = .object [("HasEvent", .natural event)]
  | .setting id => json = .object [("Setting", .natural id)]
  | .not operand => ∃ inner, json = .object [("Not", inner)] ∧ ofJson inner = .ok operand
  | .and operands => ∃ elements, json = .object [("And", .array elements)] ∧
      ofJsonAll elements = .ok operands
  | .or operands => ∃ elements, json = .object [("Or", .array elements)] ∧
      ofJsonAll elements = .ok operands
  | .atLeast count operands => ∃ elements,
      json = .object [("AtLeast", .array [.natural count, .array elements])] ∧
      ofJsonAll elements = .ok operands

/-- A requirement is only read from a document of its form. -/
theorem hasForm_of_ofJson {json : Json} {requirement : Requirement}
    (hread : ofJson json = .ok requirement) : HasForm json requirement := by
  unfold ofJson at hread
  split at hread
  case h_2 => cases hread
  case h_1 =>
    unfold ofForm at hread
    split at hread
    case h_1 =>
      cases hread
      rfl
    case h_2 =>
      rcases Outcome.bind_eq_ok.mp hread with ⟨item, hitem, hread⟩
      rcases Outcome.bind_eq_ok.mp hread with ⟨count, hcount, hread⟩
      cases hread
      rw [(Decoder.eq_of_naturalBelow hitem).1, (Decoder.eq_of_naturalBelow hcount).1]
      rfl
    case h_3 =>
      rcases Outcome.map_eq_ok.mp hread with ⟨event, hevent, rfl⟩
      rw [(Decoder.eq_of_naturalBelow hevent).1]
      rfl
    case h_4 =>
      rcases Outcome.map_eq_ok.mp hread with ⟨operand, hoperand, rfl⟩
      exact ⟨_, rfl, hoperand⟩
    case h_5 =>
      rcases Outcome.map_eq_ok.mp hread with ⟨operands, hoperands, rfl⟩
      exact ⟨_, rfl, hoperands⟩
    case h_6 =>
      rcases Outcome.map_eq_ok.mp hread with ⟨operands, hoperands, rfl⟩
      exact ⟨_, rfl, hoperands⟩
    case h_7 =>
      rcases Outcome.bind_eq_ok.mp hread with ⟨count, hcount, hread⟩
      rcases Outcome.bind_eq_ok.mp hread with ⟨operands, hoperands, hread⟩
      cases hread
      rw [(Decoder.eq_of_naturalBelow hcount).1]
      exact ⟨_, rfl, hoperands⟩
    case h_8 =>
      rcases Outcome.map_eq_ok.mp hread with ⟨id, hid, rfl⟩
      rw [(Decoder.eq_of_naturalBelow hid).1]
      rfl
    case h_9 => cases hread

mutual

/-- A requirement is read from no other document than its own. -/
theorem eq_toJson : ∀ (requirement : Requirement) {json : Json},
    ofJson json = .ok requirement → json = requirement.toJson
  | .const _, _, hread => hasForm_of_ofJson hread
  | .hasItem _ _, _, hread => hasForm_of_ofJson hread
  | .hasEvent _, _, hread => hasForm_of_ofJson hread
  | .setting _, _, hread => hasForm_of_ofJson hread
  | .not operand, _, hread => by
      rcases hasForm_of_ofJson hread with ⟨inner, rfl, hinner⟩
      rw [toJson, eq_toJson operand hinner]
  | .and operands, _, hread => by
      rcases hasForm_of_ofJson hread with ⟨elements, rfl, helements⟩
      rw [toJson, eq_toJsonAll operands helements]
  | .or operands, _, hread => by
      rcases hasForm_of_ofJson hread with ⟨elements, rfl, helements⟩
      rw [toJson, eq_toJsonAll operands helements]
  | .atLeast _ operands, _, hread => by
      rcases hasForm_of_ofJson hread with ⟨elements, rfl, helements⟩
      rw [toJson, eq_toJsonAll operands helements]

theorem eq_toJsonAll : ∀ (operands : List Requirement) {elements : List Json},
    ofJsonAll elements = .ok operands → elements = toJsonAll operands
  | operands, [], hread => by
      rw [ofJsonAll] at hread
      cases hread
      rw [toJsonAll]
  | operands, element :: elements, hread => by
      rw [ofJsonAll] at hread
      rcases Outcome.bind_eq_ok.mp hread with ⟨operand, hoperand, hread⟩
      rcases Outcome.bind_eq_ok.mp hread with ⟨others, hothers, hread⟩
      cases hread
      rw [toJsonAll, eq_toJson operand hoperand, eq_toJsonAll others hothers]

end

/-! ## Nesting -/

mutual

/-- How deep arrays and objects nest in the document of a requirement. -/
def nesting : Requirement → Nat
  | .const _ => 1
  | .hasItem _ _ => 2
  | .hasEvent _ => 1
  | .setting _ => 1
  | .not operand => nesting operand + 1
  | .and operands => nestingOfAll operands + 2
  | .or operands => nestingOfAll operands + 2
  | .atLeast _ operands => nestingOfAll operands + 3

/-- How deep arrays and objects nest in the documents of several requirements. -/
def nestingOfAll : List Requirement → Nat
  | [] => 0
  | operand :: operands => max (nesting operand) (nestingOfAll operands)

end

mutual

/-- The document of a requirement nests as deep as the requirement says. -/
theorem proper_toJson : ∀ requirement : Requirement, requirement.Fits →
    Proper requirement.nesting requirement.toJson
  | .const value, _ => Proper.single (.bool value)
  | .hasItem item count, hfits => by
      rcases hfits (.item item count) List.mem_cons_self with ⟨hitem, hcount⟩
      refine Proper.single (.array ?_)
      rw [List.forall_mem_cons, List.forall_mem_singleton]
      exact ⟨.natural hitem, .natural (Nat.lt_of_lt_of_le hcount (by decide))⟩
  | .hasEvent event, hfits => Proper.single (.natural (hfits (.event event) List.mem_cons_self))
  | .setting id, hfits => Proper.single (.natural (hfits (.setting id) List.mem_cons_self))
  | .not operand, hfits => by
      rw [toJson, nesting]
      exact Proper.single (proper_toJson operand hfits)
  | .and operands, hfits => by
      rw [toJson, nesting]
      exact Proper.single (.array (proper_toJsonAll operands hfits))
  | .or operands, hfits => by
      rw [toJson, nesting]
      exact Proper.single (.array (proper_toJsonAll operands hfits))
  | .atLeast count operands, hfits => by
      rcases List.forall_mem_cons.mp hfits with ⟨hcount, hoperands⟩
      rw [toJson, nesting]
      refine Proper.single (.array ?_)
      rw [List.forall_mem_cons, List.forall_mem_singleton]
      exact ⟨.natural (Nat.lt_of_lt_of_le hcount (by decide)),
        .array (proper_toJsonAll operands hoperands)⟩

theorem proper_toJsonAll : ∀ operands : List Requirement,
    (∀ atom ∈ atomsOfAll operands, atom.Fits) →
      ∀ element ∈ toJsonAll operands, Proper (nestingOfAll operands) element
  | [], _ => by
      rw [toJsonAll]
      exact List.forall_mem_nil _
  | operand :: operands, hfits => by
      rcases List.forall_mem_append.mp hfits with ⟨hoperand, hothers⟩
      have hproper := proper_toJsonAll operands hothers
      rw [toJsonAll, nestingOfAll, List.forall_mem_cons]
      exact ⟨(proper_toJson operand hoperand).mono (Nat.le_max_left _ _),
        fun element hmem => (hproper element hmem).mono (Nat.le_max_right _ _)⟩

end

mutual

/-- A document that is shallow is the document of a requirement that is. -/
theorem nesting_le_of_shallow : ∀ (requirement : Requirement) {depth : Nat},
    Shallow depth requirement.toJson → requirement.nesting ≤ depth
  | .const _, _, hshallow => by
      rcases hshallow.exists_of_single with ⟨inner, rfl, -⟩
      exact Nat.le_add_left 1 inner
  | .hasItem _ _, _, hshallow => by
      rcases hshallow.exists_of_single with ⟨_, rfl, harray⟩
      rcases harray.exists_of_array with ⟨inner, rfl, -⟩
      exact Nat.le_add_left 2 inner
  | .hasEvent _, _, hshallow => by
      rcases hshallow.exists_of_single with ⟨inner, rfl, -⟩
      exact Nat.le_add_left 1 inner
  | .setting _, _, hshallow => by
      rcases hshallow.exists_of_single with ⟨inner, rfl, -⟩
      exact Nat.le_add_left 1 inner
  | .not operand, _, hshallow => by
      rw [toJson] at hshallow
      rcases hshallow.exists_of_single with ⟨inner, rfl, hoperand⟩
      exact Nat.succ_le_succ (nesting_le_of_shallow operand hoperand)
  | .and operands, _, hshallow => by
      rw [toJson] at hshallow
      rcases hshallow.exists_of_single with ⟨_, rfl, harray⟩
      rcases harray.exists_of_array with ⟨inner, rfl, hoperands⟩
      exact Nat.add_le_add_right (nestingOfAll_le_of_shallow operands hoperands) 2
  | .or operands, _, hshallow => by
      rw [toJson] at hshallow
      rcases hshallow.exists_of_single with ⟨_, rfl, harray⟩
      rcases harray.exists_of_array with ⟨inner, rfl, hoperands⟩
      exact Nat.add_le_add_right (nestingOfAll_le_of_shallow operands hoperands) 2
  | .atLeast _ operands, _, hshallow => by
      rw [toJson] at hshallow
      rcases hshallow.exists_of_single with ⟨_, rfl, hbody⟩
      rcases hbody.exists_of_array with ⟨_, rfl, hparts⟩
      rcases (hparts _ (List.mem_cons_of_mem _ List.mem_cons_self)).exists_of_array with
        ⟨inner, rfl, hoperands⟩
      exact Nat.add_le_add_right (nestingOfAll_le_of_shallow operands hoperands) 3

theorem nestingOfAll_le_of_shallow : ∀ (operands : List Requirement) {depth : Nat},
    (∀ element ∈ toJsonAll operands, Shallow depth element) → nestingOfAll operands ≤ depth
  | [], depth, _ => Nat.zero_le depth
  | operand :: operands, _, hshallow => by
      rw [toJsonAll, List.forall_mem_cons] at hshallow
      exact Nat.max_le.mpr ⟨nesting_le_of_shallow operand hshallow.1,
        nestingOfAll_le_of_shallow operands hshallow.2⟩

end

/-- No text is read as a requirement that nests deeper than texts may. -/
theorem nesting_le_of_ofText {text : String} {requirement : Requirement}
    (hread : ofText text = .ok requirement) : requirement.nesting ≤ maxNesting := by
  rcases Outcome.bind_eq_ok.mp hread with ⟨json, hjson, hread⟩
  have hshallow : Shallow maxNesting json := by
    cases hfound : Json.ofText? text with
    | none =>
        rw [hfound] at hjson
        cases hjson
    | some found =>
        rw [hfound] at hjson
        cases hjson
        exact Json.shallow_of_ofText? hfound
  rw [requirement.eq_toJson hread] at hshallow
  exact requirement.nesting_le_of_shallow hshallow

/-- Conjunctions and disjunctions, one inside the other. -/
def tower : Nat → Requirement
  | 0 => .hasItem 0 1
  | height + 1 => .and [.hasItem 0 1, .or [.hasItem 1 1, tower height]]

theorem nesting_tower (height : Nat) : (tower height).nesting = 4 * height + 2 := by
  induction height with
  | zero => rfl
  | succ height ih =>
      simp only [tower, nesting, nestingOfAll, ih]
      omega

theorem fits_tower (height : Nat) : (tower height).Fits := by
  have hitem : ∀ id < 2, (Atom.item id 1).Fits := fun id hid =>
    ⟨Nat.lt_of_lt_of_le hid (by decide), by decide⟩
  induction height with
  | zero => exact List.forall_mem_singleton.mpr (hitem 0 (by decide))
  | succ height ih =>
      have hatoms : (tower (height + 1)).atoms =
          .item 0 1 :: .item 1 1 :: (tower height).atoms := by
        simp [tower, atoms, atomsOfAll]
      rw [Fits, hatoms, List.forall_mem_cons, List.forall_mem_cons]
      exact ⟨hitem 0 (by decide), hitem 1 (by decide), ih⟩

/-- A tower is found in its document, but not in the texts of it when it is too high. -/
theorem ofText_tower :
    (tower 32).Fits ∧ ofJson (tower 32).toJson = .ok (tower 32) ∧
    ofText (tower 32).toJson.render ≠ .ok (tower 32) ∧
    ofText (tower 32).toJson.pretty ≠ .ok (tower 32) := by
  have hdeep : ∀ text, ofText text ≠ .ok (tower 32) := by
    intro text hread
    have hle := nesting_le_of_ofText hread
    rw [nesting_tower] at hle
    exact absurd hle (by decide)
  exact ⟨fits_tower 32, ofJson_toJson _ (fits_tower 32), hdeep _, hdeep _⟩

end SeedLogic.Requirement
