import SeedLogic.Json.Decoder
import SeedLogic.Proofs.Json.Reading
import SeedLogic.Proofs.Outcome

/-!
# Decoding what is written

Decoders of arrays, of records and of values with a tag find what was written, if the
decoders of the parts do.  A document carries a value when the value is found in the
document itself and in all its texts (`Carries.of_proper`).
-/

namespace SeedLogic.Json

namespace Decoder

variable {α : Type}

/-! ## Words and arrays -/

theorem word32_natural {value : Nat} (hlt : value < Nat.pow 2 32) :
    word32 (.natural value) = .ok value :=
  if_pos hlt

/-- A word is read from a natural number below its bound. -/
theorem eq_of_naturalBelow {limit : Nat} {json : Json} {value : Nat}
    (hvalue : naturalBelow limit json = .ok value) : json = .natural value ∧ value < limit := by
  cases json with
  | natural number =>
      rw [naturalBelow] at hvalue
      split at hvalue
      case isTrue hlt =>
        cases hvalue
        exact ⟨rfl, hlt⟩
      case isFalse => cases hvalue
  | _ => cases hvalue

theorem elements_map {decoder : Decoder α} {toJson : α → Json} : ∀ {values : List α}
    (index : Nat), (∀ value ∈ values, decoder (toJson value) = .ok value) →
      elements decoder index (values.map toJson) = .ok values
  | [], _, _ => rfl
  | value :: values, index, hvalues => by
      rcases List.forall_mem_cons.mp hvalues with ⟨hvalue, hothers⟩
      rw [List.map_cons, elements, hvalue, elements_map (index + 1) hothers]
      rfl

theorem list_map {decoder : Decoder α} {toJson : α → Json} {values : List α}
    (hvalues : ∀ value ∈ values, decoder (toJson value) = .ok value) :
    list decoder (.array (values.map toJson)) = .ok values := by
  rw [list_array, elements_map 0 hvalues]

/-! ## Members -/

section Members

variable {ρ : Type} {fields : List String} {assign : Assign ρ} {skip : Decoder Unit}
  {seen : List String} {record : ρ} {result : ρ × List String}

theorem inside_eq_ok {step : Step} {outcome : Except Place α} {value : α} :
    inside step outcome = .ok value ↔ outcome = .ok value := by
  cases outcome with
  | ok other => rfl
  | error place => exact ⟨nofun, nofun⟩

/-- A member is a field that gets its value, or it is skipped. -/
theorem assignMembers_cons_eq_ok {key : String} {value : Json} {members : List (String × Json)} :
    assignMembers fields assign skip seen record ((key, value) :: members) = .ok result ↔
      (key ∈ fields ∧ key ∉ seen ∧ ∃ assigned, assign record key value = .ok assigned ∧
        assignMembers fields assign skip (key :: seen) assigned members = .ok result) ∨
      (key ∉ fields ∧ skip value = .ok () ∧
        assignMembers fields assign skip seen record members = .ok result) := by
  rw [assignMembers]
  by_cases hfield : key ∈ fields
  · rw [if_pos hfield]
    by_cases hseen : key ∈ seen
    · rw [if_pos hseen]
      exact ⟨nofun, by simp [hfield, hseen]⟩
    · rw [if_neg hseen, Outcome.bind_eq_ok]
      simp only [inside_eq_ok, hfield, hseen]
      simp
  · rw [if_neg hfield, Outcome.check_bind_eq_ok]
    simp [inside_eq_ok, hfield]

theorem complete_eq_ok {json : Json} {value result : α} :
    complete json value = .ok result ↔ json.flaw? = none ∧ value = result := by
  rw [complete]
  split
  case h_1 flaw hflaw => exact ⟨nofun, fun hnone => by simp [hflaw] at hnone⟩
  case h_2 hnone => simp [hnone]

/-- A field gets its value. -/
theorem assignMembers_cons {assigned : ρ} {key : String} {value : Json}
    (members : List (String × Json)) (hfield : key ∈ fields) (hseen : key ∉ seen)
    (hassign : assign record key value = .ok assigned) :
    assignMembers fields assign skip seen record ((key, value) :: members) =
      assignMembers fields assign skip (key :: seen) assigned members := by
  rw [assignMembers, if_pos hfield, if_neg hseen, hassign]
  rfl

/-- Members that are no fields of a record are skipped. -/
theorem assignMembers_append : ∀ {members : List (String × Json)} (rest : List (String × Json)),
    (∀ member ∈ members, member.1 ∉ fields) → (∀ member ∈ members, skip member.2 = .ok ()) →
      assignMembers fields assign skip seen record (members ++ rest) =
        assignMembers fields assign skip seen record rest
  | [], _, _, _ => rfl
  | (key, value) :: members, rest, hfields, hskip => by
      rcases List.forall_mem_cons.mp hfields with ⟨hkey, hkeys⟩
      rcases List.forall_mem_cons.mp hskip with ⟨hvalue, hothers⟩
      rw [List.cons_append, assignMembers, if_neg hkey, hvalue]
      exact assignMembers_append rest hkeys hothers

/-- Members are assigned when no field is given twice, fields have values that can be
assigned, and others can be skipped. -/
theorem exists_assignMembers {members : List (String × Json)}
    (honce : ∀ key ∈ fields, (members.filter fun member => member.1 == key).length ≤
      if key ∈ seen then 0 else 1)
    (hassign : ∀ member ∈ members, member.1 ∈ fields → ∀ record,
      ∃ assigned, assign record member.1 member.2 = .ok assigned)
    (hskip : ∀ member ∈ members, member.1 ∉ fields → skip member.2 = .ok ()) :
    ∃ result, assignMembers fields assign skip seen record members = .ok result := by
  induction members generalizing seen record with
  | nil => exact ⟨_, rfl⟩
  | cons member members ih =>
      rcases member with ⟨key, value⟩
      rcases List.forall_mem_cons.mp hassign with ⟨hvalue, hassign⟩
      rcases List.forall_mem_cons.mp hskip with ⟨hskipped, hskip⟩
      simp only [assignMembers_cons_eq_ok]
      by_cases hkey : key ∈ fields
      · have hfirst := honce key hkey
        rw [List.filter_cons_of_pos (by simp), List.length_cons] at hfirst
        have hseen : key ∉ seen := fun hmem => by simp [hmem] at hfirst
        rw [if_neg hseen] at hfirst
        rcases hvalue hkey record with ⟨assigned, hassigned⟩
        obtain ⟨result, hresult⟩ : ∃ result,
            assignMembers fields assign skip (key :: seen) assigned members = .ok result := by
          refine ih (fun other hother => ?_) hassign hskip
          by_cases heq : key = other
          · subst heq
            rw [if_pos List.mem_cons_self]
            omega
          · have hrest := honce other hother
            rw [List.filter_cons_of_neg (by simpa using heq)] at hrest
            simpa [Ne.symm heq] using hrest
        exact ⟨result, .inl ⟨hkey, hseen, assigned, hassigned, hresult⟩⟩
      · obtain ⟨result, hresult⟩ : ∃ result,
            assignMembers fields assign skip seen record members = .ok result := by
          refine ih (fun other hother => ?_) hassign hskip
          have heq : key ≠ other := fun heq => hkey (heq ▸ hother)
          have hrest := honce other hother
          rwa [List.filter_cons_of_neg (by simpa using heq)] at hrest
        exact ⟨result, .inr ⟨hkey, hskipped hkey, hresult⟩⟩

/-- What members say about a field: the value that its only member has, or `absent` if there
is none. -/
def Given (members : List (String × Json)) (key : String) (decoder : Decoder α)
    (absent value : α) : Prop :=
  match members.filter fun member => member.1 == key with
  | [] => value = absent
  | [member] => decoder member.2 = .ok value
  | _ => False

theorem Given.length_le {members : List (String × Json)} {key : String} {decoder : Decoder α}
    {absent value : α} (hgiven : Given members key decoder absent value) :
    (members.filter fun member => member.1 == key).length ≤ 1 := by
  rw [Given] at hgiven
  split at hgiven
  case h_1 hnone => simp [hnone]
  case h_2 member honly => simp [honly]
  case h_3 => exact hgiven.elim

theorem Given.decodes {members : List (String × Json)} {key : String} {decoder : Decoder α}
    {absent value : α} (hgiven : Given members key decoder absent value) {json : Json}
    (hmem : (key, json) ∈ members) : decoder json = .ok value := by
  have hfilter : (key, json) ∈ members.filter fun member => member.1 == key :=
    List.mem_filter.mpr ⟨hmem, by simp⟩
  rw [Given] at hgiven
  split at hgiven
  case h_1 hnone => simp [hnone] at hfilter
  case h_2 member honly =>
      rw [honly, List.mem_singleton] at hfilter
      rwa [← hfilter] at hgiven
  case h_3 => exact hgiven.elim

theorem Given.unique {members : List (String × Json)} {key : String} {decoder : Decoder α}
    {absent first second : α} (hfirst : Given members key decoder absent first)
    (hsecond : Given members key decoder absent second) : first = second := by
  rw [Given] at hfirst hsecond
  split at hfirst
  case h_1 hnone => rw [hnone] at hsecond; exact hfirst.trans hsecond.symm
  case h_2 member honly =>
      rw [honly] at hsecond
      exact Except.ok.inj (hfirst.symm.trans hsecond)
  case h_3 => exact hfirst.elim

/-- What holds of the default and of all decoded values holds of what is given. -/
theorem Given.elim {members : List (String × Json)} {key : String} {decoder : Decoder α}
    {absent value : α} {holds : α → Prop} (hgiven : Given members key decoder absent value)
    (habsent : holds absent) (hdecoded : ∀ json other, decoder json = .ok other → holds other) :
    holds value := by
  rw [Given] at hgiven
  split at hgiven
  case h_1 => exact hgiven ▸ habsent
  case h_2 member _ => exact hdecoded member.2 value hgiven
  case h_3 => exact hgiven.elim

/-- Members with other keys say nothing about a field. -/
theorem given_append {known others : List (String × Json)} {key : String} {decoder : Decoder α}
    {absent value : α} {json : Json} (hothers : ∀ member ∈ others, member.1 ≠ key)
    (hknown : known.filter (fun member => member.1 == key) = [(key, json)])
    (hvalue : decoder json = .ok value) : Given (known ++ others) key decoder absent value := by
  have hnone : others.filter (fun member => member.1 == key) = [] :=
    List.filter_eq_nil_iff.mpr fun member hmem => by simpa using hothers member hmem
  rw [Given, List.filter_append, hknown, hnone]
  exact hvalue

/-- By induction on the members: a field is given by its only member, and not again once it
was seen.  `get` is the field of the record. -/
theorem given_or_kept (key : String) (decoder : Decoder α) (get : ρ → α)
    (hassign : ∀ {record other json assigned}, other ∈ fields →
      assign record other json = .ok assigned →
        if other = key then decoder json = .ok (get assigned) else get assigned = get record)
    (hkey : key ∈ fields) {members : List (String × Json)}
    (hassigned : assignMembers fields assign skip seen record members = .ok result) :
    (key ∈ seen → members.filter (fun member => member.1 == key) = [] ∧
      get result.1 = get record) ∧
    (key ∉ seen → Given members key decoder (get record) (get result.1)) := by
  induction members generalizing seen record with
  | nil =>
      rw [assignMembers] at hassigned
      cases hassigned
      exact ⟨fun _ => ⟨rfl, rfl⟩, fun _ => rfl⟩
  | cons member members ih =>
      rcases member with ⟨other, json⟩
      rcases assignMembers_cons_eq_ok.mp hassigned with
        ⟨hother, hnew, assigned, hvalue, hrest⟩ | ⟨hother, _, hrest⟩
      · rcases ih hrest with ⟨hseen, hfresh⟩
        have hgot := hassign hother hvalue
        by_cases heq : other = key
        · subst heq
          rcases hseen List.mem_cons_self with ⟨hnone, hsame⟩
          refine ⟨fun hmem => absurd hmem hnew, fun _ => ?_⟩
          rw [Given, List.filter_cons_of_pos (by simp), hnone, hsame]
          rwa [if_pos rfl] at hgot
        · have hfilter : ((other, json) :: members).filter (fun member => member.1 == key) =
              members.filter (fun member => member.1 == key) :=
            List.filter_cons_of_neg (by simpa using heq)
          rw [if_neg heq] at hgot
          rw [Given, hfilter]
          refine ⟨fun hmem => ?_, fun hmem => ?_⟩
          · rcases hseen (List.mem_cons_of_mem _ hmem) with ⟨hnone, hsame⟩
            exact ⟨hnone, hsame.trans hgot⟩
          · rw [← hgot]
            exact hfresh (by simp [hmem, Ne.symm heq])
      · have heq : other ≠ key := fun heq => hother (heq ▸ hkey)
        rw [Given, List.filter_cons_of_neg (by simpa using heq)]
        exact ih hrest

end Members

/-! ## Records and tags -/

theorem single_object {field : String} {decoder : Decoder α} {json : Json} {value : α}
    (hvalue : decoder json = .ok value) :
    single field decoder (.object [(field, json)]) = .ok value := by
  have hassign : (decoder json).map some = .ok (some value) := by
    rw [hvalue]
    rfl
  have hseen : [field].all (· ∈ [field]) = true := by simp
  rw [single, record_object, recordOfMembers,
    assignMembers_cons [] List.mem_cons_self List.not_mem_nil hassign]
  change (if [field].all (· ∈ [field]) = true then .ok (some value) else refuse) >>= ofOption = _
  rw [if_pos hseen]
  rfl

theorem case_string {ofName? : String → Option α} {name : String} {value : α}
    (hname : ofName? name = some value) : case ofName? (.string name) = .ok value := by
  rw [case, hname]
  rfl

mutual

theorem flawless_of_proper : ∀ {json : Json} {depth : Nat}, Proper depth json →
    flawless json = .ok ()
  | .null, _, _ | .bool _, _, _ | .natural _, _, _ | .string _, _, _ => rfl
  | .array elements, _, .array helements => by
      rw [flawless, flawlessElements_of_proper 0 helements]
  | .object members, _, .object hmembers => by
      rw [flawless, flawlessMembers_of_proper hmembers]

theorem flawlessElements_of_proper : ∀ {elements : List Json} {depth : Nat} (index : Nat),
    (∀ element ∈ elements, Proper depth element) → flawlessElements index elements = .ok ()
  | [], _, _, _ => by rw [flawlessElements]
  | element :: elements, _, index, hproper => by
      rcases List.forall_mem_cons.mp hproper with ⟨helement, hothers⟩
      rw [flawlessElements, flawless_of_proper helement,
        flawlessElements_of_proper (index + 1) hothers]
      rfl

theorem flawlessMembers_of_proper : ∀ {members : List (String × Json)} {depth : Nat},
    (∀ member ∈ members, Proper depth member.2) → flawlessMembers members = .ok ()
  | [], _, _ => by rw [flawlessMembers]
  | (key, value) :: members, _, hproper => by
      rcases List.forall_mem_cons.mp hproper with ⟨hvalue, hothers⟩
      rw [flawlessMembers, flawless_of_proper hvalue, flawlessMembers_of_proper hothers]
      rfl

end

/-- The variant is found by the tag, and given the other members. -/
theorem tagged_object {variantOf? : Json → Option (Decoder α)} {variant : Decoder α}
    {tag : Json} {fields : List (String × Json)} {depth : Nat}
    (hproper : ∀ member ∈ ("type", tag) :: fields, Proper depth member.2)
    (hfields : ∀ member ∈ fields, member.1 ≠ "type") (hvariant : variantOf? tag = some variant) :
    tagged variantOf? (.object (("type", tag) :: fields)) = variant (.object fields) := by
  have hpartition : (("type", tag) :: fields).partition (fun member => member.1 == "type") =
      ([("type", tag)], fields) := by
    have hothers : ∀ member ∈ fields, ¬ (member.1 == "type") = true := fun member hmem =>
      fun heq => hfields member hmem (beq_iff_eq.mp heq)
    rw [List.partition_eq_filter_filter, List.filter_cons_of_pos (by simp),
      List.filter_eq_nil_iff.mpr hothers, List.filter_cons_of_neg (by simp),
      List.filter_eq_self.mpr (by simpa using hothers)]
  rw [tagged, flawless_of_proper (.object hproper)]
  simp only [taggedValue, hpartition, hvariant]
  rfl

end Decoder

/-! ## Documents -/

/-- A value is found in a document, in every text of it, and so in both layouts. -/
structure Carries {α : Type} (decoder : Decoder α) (json : Json) (value : α) : Prop where
  decoded : decoder json = .ok value
  spelled : ∀ text : String, Spells maxNesting json text.toList →
    Decoder.ofText decoder text = .ok value
  rendered : Decoder.ofText decoder json.render = .ok value
  pretty : Decoder.ofText decoder json.pretty = .ok value

theorem Carries.of_proper {α : Type} {decoder : Decoder α} {json : Json} {value : α}
    (hdecoded : decoder json = .ok value) (hproper : Proper maxNesting json) :
    Carries decoder json value := by
  have hspelled : ∀ text : String, Spells maxNesting json text.toList →
      Decoder.ofText decoder text = .ok value := by
    intro text hspells
    rw [Decoder.ofText, ofText?_of_spells hspells (Nat.le_refl _)]
    exact hdecoded
  exact ⟨hdecoded, hspelled, hspelled _ (spells_render hproper), hspelled _ (spells_pretty hproper)⟩

end SeedLogic.Json
