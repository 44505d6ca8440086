import SeedLogic.Json.Reader

/-!
# How deep texts nest

Whatever text the reader is given, arrays and objects nest at most `maxNesting` deep in the
value that it finds, apart from the parts of a value with a flaw (`shallow_of_ofText?`).
-/

namespace SeedLogic.Json

/-- Arrays and objects nest at most `depth` deep, apart from the parts of a value with a
flaw. -/
inductive Shallow : (depth : Nat) → Json → Prop
  | null {depth : Nat} : Shallow depth .null
  | bool {depth : Nat} (value : Bool) : Shallow depth (.bool value)
  | natural {depth : Nat} (value : Nat) : Shallow depth (.natural value)
  | numeral {depth : Nat} (literal : String) : Shallow depth (.numeral literal)
  | string {depth : Nat} (text : String) : Shallow depth (.string text)
  | array {depth : Nat} {elements : List Json}
      (helements : ∀ element ∈ elements, Shallow depth element) :
      Shallow (depth + 1) (.array elements)
  | object {depth : Nat} {members : List (String × Json)}
      (hmembers : ∀ member ∈ members, Shallow depth member.2) :
      Shallow (depth + 1) (.object members)
  | flawed {depth : Nat} (begun : Json) (flaw : Flaw) : Shallow depth (.flawed begun flaw)

theorem Shallow.exists_of_array {depth : Nat} {elements : List Json}
    (hshallow : Shallow depth (.array elements)) :
    ∃ inner, depth = inner + 1 ∧ ∀ element ∈ elements, Shallow inner element := by
  cases hshallow with
  | array helements => exact ⟨_, rfl, helements⟩

theorem Shallow.exists_of_single {depth : Nat} {key : String} {value : Json}
    (hshallow : Shallow depth (.object [(key, value)])) :
    ∃ inner, depth = inner + 1 ∧ Shallow inner value := by
  cases hshallow with
  | object hmembers => exact ⟨_, rfl, hmembers _ List.mem_cons_self⟩

/-! ## Scalars -/

theorem shallow_of_isContainer {json : Json} (hjson : json.isContainer = false) {depth : Nat} :
    Shallow depth json := by
  cases json with
  | null => exact .null
  | bool value => exact .bool value
  | natural value => exact .natural value
  | numeral literal => exact .numeral literal
  | string text => exact .string text
  | array elements => cases hjson
  | object members => cases hjson
  | flawed begun flaw => exact .flawed begun flaw

theorem shallow_readString (chars : List Char) {depth : Nat} :
    Shallow depth (readString chars).1 := by
  unfold readString
  split
  · split
    · exact .string _
    · exact .flawed _ _
  · exact .flawed _ _

theorem shallow_readNumber (chars : List Char) {depth : Nat} :
    Shallow depth (readNumber chars).1 := by
  unfold readNumber
  split
  · unfold Numeral.toJson
    split
    · exact .flawed _ _
    · split
      · exact .natural _
      · exact .numeral _
  · exact .flawed _ _

theorem shallow_readKeyword (tail : String) {json : Json} (chars : List Char) {depth : Nat}
    (hjson : Shallow depth json) : Shallow depth (readKeyword tail json chars).1 := by
  unfold readKeyword
  split
  · exact hjson
  · exact .flawed _ _

/-! ## Arrays and objects -/

section Bodies

variable {value : List Char → Reading} {depth : Nat}
  (hvalue : ∀ chars, Shallow depth (value chars).1)
include hvalue

theorem shallow_arrayBody (fuel : Nat) (chars : List Char) :
    ∀ element ∈ (arrayBody value fuel chars).1, Shallow depth element := by
  induction fuel generalizing chars with
  | zero => exact List.forall_mem_nil _
  | succ fuel ih =>
      rw [arrayBody]
      split
      · exact List.forall_mem_nil _
      · exact List.forall_mem_nil _
      · next first behind _ _ =>
          have hfirst := hvalue (first :: behind)
          dsimp only
          split
          · exact List.forall_mem_singleton.mpr hfirst
          · split
            · exact List.forall_mem_cons.mpr ⟨hfirst, ih _⟩
            · exact List.forall_mem_singleton.mpr hfirst
            · exact List.forall_mem_singleton.mpr hfirst

theorem shallow_objectBody (fuel : Nat) (chars : List Char) :
    ∀ member ∈ (objectBody value fuel chars).1, Shallow depth member.2 := by
  induction fuel generalizing chars with
  | zero => exact List.forall_mem_nil _
  | succ fuel ih =>
      rw [objectBody]
      split
      · exact List.forall_mem_nil _
      · split
        · next rest _ =>
            have hfirst := hvalue rest
            dsimp only
            split
            · exact List.forall_mem_singleton.mpr hfirst
            · split
              · exact List.forall_mem_cons.mpr ⟨hfirst, ih _⟩
              · exact List.forall_mem_singleton.mpr hfirst
              · exact List.forall_mem_singleton.mpr hfirst
        · exact List.forall_mem_nil _

omit hvalue in
theorem mem_of_mem_keyedMembers {member : String × Json} :
    ∀ {members : List (Option String × Json)}, member ∈ keyedMembers members →
      (some member.1, member.2) ∈ members
  | (none, _) :: _, hmem => by cases hmem
  | (some key, json) :: members, hmem => by
      rcases List.mem_cons.mp hmem with rfl | hlater
      · exact List.mem_cons_self
      · exact List.mem_cons_of_mem _ (mem_of_mem_keyedMembers hlater)

theorem shallow_valueFrom (fuel : Nat) (first : Char) (rest : List Char) :
    Shallow (depth + 1) (valueFrom value fuel first rest).1 := by
  unfold valueFrom
  split
  case h_1 => exact shallow_readString rest
  case h_2 =>
    have helements := shallow_arrayBody hvalue fuel rest
    split
    · exact .array (List.forall_mem_nil _)
    · dsimp only
      cases (arrayBody value fuel rest).2 with
      | closed rest => exact .array helements
      | broken flaw => exact .flawed _ _
  case h_3 =>
    have hmembers : ∀ member ∈ keyedMembers (objectBody value fuel rest).1,
        Shallow depth member.2 := fun member hmem =>
      shallow_objectBody hvalue fuel rest _ (mem_of_mem_keyedMembers hmem)
    split
    · exact .object (List.forall_mem_nil _)
    · dsimp only
      cases (objectBody value fuel rest).2 with
      | closed rest =>
          dsimp only [objectOf]
          split
          · exact .object hmembers
          · exact .flawed _ _
      | broken flaw => exact .flawed _ _
  case h_4 => exact shallow_readKeyword _ _ .null
  case h_5 => exact shallow_readKeyword _ _ (.bool true)
  case h_6 => exact shallow_readKeyword _ _ (.bool false)
  case h_7 => exact shallow_readNumber _

end Bodies

/-! ## Values -/

theorem shallow_limited {level depth : Nat} {json : Json}
    (hjson : level < maxNesting → Shallow depth json) : Shallow depth (limited level json) := by
  unfold limited
  split
  case isTrue => exact .flawed _ _
  case isFalse hlimit =>
    by_cases hlt : level < maxNesting
    · exact hjson hlt
    · refine shallow_of_isContainer ?_
      simpa [Nat.not_lt.mp hlt] using hlimit

/-- By induction on the fuel: each level leaves one less to the levels inside of it. -/
theorem shallow_value (fuel level : Nat) (chars : List Char) :
    Shallow (maxNesting - level) (value fuel level chars).1 := by
  induction fuel generalizing level chars with
  | zero => exact .flawed _ _
  | succ fuel ih =>
      rw [value]
      split
      · exact .flawed _ _
      · apply shallow_limited
        intro hlt
        have hdepth : maxNesting - level = maxNesting - (level + 1) + 1 := by omega
        rw [hdepth]
        exact shallow_valueFrom (ih (level + 1)) fuel _ _

/-- No text has a value that nests deeper than texts may. -/
theorem shallow_of_ofText? {text : String} {json : Json} (hjson : ofText? text = some json) :
    Shallow maxNesting json := by
  have hfirst := shallow_value (text.length + 1) 0 text.toList
  rw [ofText?] at hjson
  dsimp only at hjson
  split at hjson
  · cases hjson
    exact hfirst
  · cases hjson

end SeedLogic.Json
