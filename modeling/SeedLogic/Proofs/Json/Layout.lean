import SeedLogic.Json.Printer
import SeedLogic.Json.Reader

/-!
# Texts of JSON values

`Spells depth json chars` says that characters are a text of a value in which arrays and
objects nest at most `depth` deep, with white space wherever JSON has it.  Both layouts
spell the values that they write (`spells_render` and `spells_pretty`).
-/

namespace SeedLogic.Json

/-! ## Values without flaw -/

/-- Values that need no more than texts, words of 64 bits, and arrays and objects that nest
at most `depth` deep. -/
inductive Proper : (depth : Nat) → Json → Prop
  | null {depth : Nat} : Proper depth .null
  | bool {depth : Nat} (value : Bool) : Proper depth (.bool value)
  | natural {depth value : Nat} (hlt : value < Nat.pow 2 64) : Proper depth (.natural value)
  | string {depth : Nat} (text : String) : Proper depth (.string text)
  | array {depth : Nat} {elements : List Json}
      (helements : ∀ element ∈ elements, Proper depth element) :
      Proper (depth + 1) (.array elements)
  | object {depth : Nat} {members : List (String × Json)}
      (hmembers : ∀ member ∈ members, Proper depth member.2) :
      Proper (depth + 1) (.object members)

theorem Proper.mono {depth deeper : Nat} {json : Json} (hproper : Proper depth json)
    (hle : depth ≤ deeper) : Proper deeper json := by
  induction hproper generalizing deeper with
  | null => exact .null
  | bool value => exact .bool value
  | natural hlt => exact .natural hlt
  | string text => exact .string text
  | array _ ih =>
      obtain ⟨deeper, rfl⟩ := Nat.exists_eq_add_of_le' hle
      exact .array fun element hmem => ih element hmem (Nat.le_add_left _ _)
  | object _ ih =>
      obtain ⟨deeper, rfl⟩ := Nat.exists_eq_add_of_le' hle
      exact .object fun member hmem => ih member hmem (Nat.le_add_left _ _)

theorem Proper.single {depth : Nat} {key : String} {value : Json} (hvalue : Proper depth value) :
    Proper (depth + 1) (.object [(key, value)]) :=
  .object (List.forall_mem_singleton.mpr hvalue)

/-! ## Spelling -/

/-- White space, or nothing. -/
def IsGap (chars : List Char) : Prop :=
  ∀ char ∈ chars, isSpace char = true

theorem isGap_nil : IsGap [] :=
  List.forall_mem_nil _

mutual

/-- Characters are a text of a value. -/
inductive Spells : (depth : Nat) → Json → List Char → Prop
  | null {depth : Nat} : Spells depth .null ['n', 'u', 'l', 'l']
  | yes {depth : Nat} : Spells depth (.bool true) ['t', 'r', 'u', 'e']
  | no {depth : Nat} : Spells depth (.bool false) ['f', 'a', 'l', 's', 'e']
  | natural {depth value : Nat} (hlt : value < Nat.pow 2 64) :
      Spells depth (.natural value) (toString value).toList
  | string {depth : Nat} (text : String) : Spells depth (.string text) (quote text).toList
  | emptyArray {depth : Nat} {gap : List Char} (hgap : IsGap gap) :
      Spells (depth + 1) (.array []) ('[' :: (gap ++ [']']))
  | array {depth : Nat} {elements : List Json} {chars : List Char}
      (helements : SpellsElements depth elements chars) :
      Spells (depth + 1) (.array elements) ('[' :: (chars ++ [']']))
  | emptyObject {depth : Nat} {gap : List Char} (hgap : IsGap gap) :
      Spells (depth + 1) (.object []) ('{' :: (gap ++ ['}']))
  | object {depth : Nat} {members : List (String × Json)} {chars : List Char}
      (hmembers : SpellsMembers depth members chars) :
      Spells (depth + 1) (.object members) ('{' :: (chars ++ ['}']))

/-- Characters are the texts of elements, at least one, between brackets. -/
inductive SpellsElements : (depth : Nat) → List Json → List Char → Prop
  | single {depth : Nat} {element : Json} {before chars behind : List Char}
      (hbefore : IsGap before) (helement : Spells depth element chars) (hbehind : IsGap behind) :
      SpellsElements depth [element] (before ++ (chars ++ behind))
  | cons {depth : Nat} {element : Json} {elements : List Json}
      {before chars behind others : List Char} (hbefore : IsGap before)
      (helement : Spells depth element chars) (hbehind : IsGap behind)
      (helements : SpellsElements depth elements others) :
      SpellsElements depth (element :: elements) (before ++ (chars ++ (behind ++ ',' :: others)))

/-- Characters are the texts of members, at least one, between braces. -/
inductive SpellsMembers : (depth : Nat) → List (String × Json) → List Char → Prop
  | single {depth : Nat} {key : String} {value : Json} {front gap before chars behind : List Char}
      (hfront : IsGap front) (hgap : IsGap gap) (hbefore : IsGap before)
      (hvalue : Spells depth value chars) (hbehind : IsGap behind) :
      SpellsMembers depth [(key, value)]
        (front ++ ((quote key).toList ++ (gap ++ ':' :: (before ++ (chars ++ behind)))))
  | cons {depth : Nat} {key : String} {value : Json} {members : List (String × Json)}
      {front gap before chars behind others : List Char} (hfront : IsGap front)
      (hgap : IsGap gap) (hbefore : IsGap before) (hvalue : Spells depth value chars)
      (hbehind : IsGap behind) (hmembers : SpellsMembers depth members others) :
      SpellsMembers depth ((key, value) :: members)
        (front ++ ((quote key).toList ++
          (gap ++ ':' :: (before ++ (chars ++ (behind ++ ',' :: others))))))

end

/-! ## One line -/

mutual

theorem spells_render : ∀ {json : Json} {depth : Nat}, Proper depth json →
    Spells depth json json.render.toList
  | .null, _, _ => .null
  | .bool true, _, _ => .yes
  | .bool false, _, _ => .no
  | .natural _, _, .natural hlt => .natural hlt
  | .string text, _, _ => .string text
  | .array [], _, .array _ => .emptyArray isGap_nil
  | .array (_ :: _), _, .array helements => by
      have hspells := spells_renderElements (List.cons_ne_nil _ _) helements
      simpa [render] using Spells.array hspells
  | .object [], _, .object _ => .emptyObject isGap_nil
  | .object (_ :: _), _, .object hmembers => by
      have hspells := spells_renderMembers (List.cons_ne_nil _ _) hmembers
      simpa [render] using Spells.object hspells

theorem spells_renderElements : ∀ {elements : List Json} {depth : Nat}, elements ≠ [] →
    (∀ element ∈ elements, Proper depth element) →
      SpellsElements depth elements (renderElements elements).toList
  | [element], _, _, hproper => by
      have hspells := spells_render (hproper element List.mem_cons_self)
      simpa [renderElements] using SpellsElements.single isGap_nil hspells isGap_nil
  | element :: next :: elements, _, _, hproper => by
      rcases List.forall_mem_cons.mp hproper with ⟨helement, hothers⟩
      have hspells := spells_render helement
      simpa [renderElements] using
        SpellsElements.cons isGap_nil hspells isGap_nil
          (spells_renderElements (List.cons_ne_nil _ _) hothers)

theorem spells_renderMembers : ∀ {members : List (String × Json)} {depth : Nat}, members ≠ [] →
    (∀ member ∈ members, Proper depth member.2) →
      SpellsMembers depth members (renderMembers members).toList
  | [(key, value)], depth, _, hproper => by
      have hspells := spells_render (hproper (key, value) List.mem_cons_self)
      have hsingle : SpellsMembers depth [(key, value)] _ :=
        .single isGap_nil isGap_nil isGap_nil hspells isGap_nil
      simpa [renderMembers] using hsingle
  | (key, value) :: next :: members, depth, _, hproper => by
      rcases List.forall_mem_cons.mp hproper with ⟨hvalue, hothers⟩
      have hspells := spells_render hvalue
      have hcons : SpellsMembers depth ((key, value) :: next :: members) _ :=
        .cons isGap_nil isGap_nil isGap_nil hspells isGap_nil
          (spells_renderMembers (List.cons_ne_nil _ _) hothers)
      simpa [renderMembers] using hcons

end

/-! ## Many lines -/

theorem isGap_newline (level : Nat) : IsGap (newline level).toList := by
  intro char hmem
  rw [newline, String.toList_ofList, List.mem_cons, List.mem_replicate] at hmem
  rcases hmem with rfl | ⟨_, rfl⟩ <;> rfl

theorem isGap_space : IsGap [' '] := by
  intro char hmem
  rw [List.mem_singleton.mp hmem]
  rfl

mutual

theorem spells_prettyAt : ∀ {json : Json} {depth : Nat} (level : Nat), Proper depth json →
    Spells depth json (prettyAt level json).toList
  | .null, _, level, _ => by
      rw [prettyAt]
      exact .null
  | .bool true, _, level, _ => by
      rw [prettyAt]
      exact .yes
  | .bool false, _, level, _ => by
      rw [prettyAt]
      exact .no
  | .natural _, _, level, .natural hlt => by
      rw [prettyAt]
      exact .natural hlt
  | .string text, _, level, _ => by
      rw [prettyAt]
      exact .string text
  | .array [], _, level, .array _ => by
      rw [prettyAt]
      exact .emptyArray isGap_nil
  | .array (_ :: _), _, level, .array helements => by
      have hspells := spells_prettyElements (level + 1) (List.cons_ne_nil _ _)
        (isGap_newline level) helements
      simpa [prettyAt] using Spells.array hspells
  | .object [], _, level, .object _ => by
      rw [prettyAt]
      exact .emptyObject isGap_nil
  | .object (_ :: _), _, level, .object hmembers => by
      have hspells := spells_prettyMembers (level + 1) (List.cons_ne_nil _ _)
        (isGap_newline level) hmembers
      simpa [prettyAt] using Spells.object hspells

/-- Elements are spelled together with the white space behind the last one. -/
theorem spells_prettyElements : ∀ {elements : List Json} {depth : Nat} {gap : List Char}
    (level : Nat), elements ≠ [] → IsGap gap → (∀ element ∈ elements, Proper depth element) →
      SpellsElements depth elements ((prettyElements level elements).toList ++ gap)
  | [element], _, _, level, _, hgap, hproper => by
      have hspells := spells_prettyAt level (hproper element List.mem_cons_self)
      simpa [prettyElements] using SpellsElements.single (isGap_newline level) hspells hgap
  | element :: next :: elements, _, _, level, _, hgap, hproper => by
      rcases List.forall_mem_cons.mp hproper with ⟨helement, hothers⟩
      have hspells := spells_prettyAt level helement
      simpa [prettyElements] using SpellsElements.cons (isGap_newline level) hspells isGap_nil
        (spells_prettyElements level (List.cons_ne_nil _ _) hgap hothers)

theorem spells_prettyMembers : ∀ {members : List (String × Json)} {depth : Nat}
    {gap : List Char} (level : Nat), members ≠ [] → IsGap gap →
    (∀ member ∈ members, Proper depth member.2) →
      SpellsMembers depth members ((prettyMembers level members).toList ++ gap)
  | [(key, value)], depth, _, level, _, hgap, hproper => by
      have hspells := spells_prettyAt level (hproper (key, value) List.mem_cons_self)
      have hsingle : SpellsMembers depth [(key, value)] _ :=
        .single (isGap_newline level) isGap_nil isGap_space hspells hgap
      simpa [prettyMembers] using hsingle
  | (key, value) :: next :: members, depth, _, level, _, hgap, hproper => by
      rcases List.forall_mem_cons.mp hproper with ⟨hvalue, hothers⟩
      have hspells := spells_prettyAt level hvalue
      have hcons : SpellsMembers depth ((key, value) :: next :: members) _ :=
        .cons (isGap_newline level) isGap_nil isGap_space hspells isGap_nil
          (spells_prettyMembers level (List.cons_ne_nil _ _) hgap hothers)
      simpa [prettyMembers] using hcons

end

/-- The layout on many lines spells a value. -/
theorem spells_pretty {depth : Nat} {json : Json} (hproper : Proper depth json) :
    Spells depth json json.pretty.toList :=
  spells_prettyAt 0 hproper

end SeedLogic.Json
