/-!
# Dictionaries in key order

A `Dict κ α` is a finite map kept as a list whose keys strictly ascend.  Walking
it visits the keys in order, and two dictionaries with the same entries are equal.
-/

namespace SeedLogic

/-- A finite map, listed by strictly ascending keys. -/
structure Dict (κ α : Type) [Ord κ] where
  entries : List (κ × α)
  sorted : entries.Pairwise fun left right => compare left.1 right.1 = .lt

namespace Dict

variable {κ α β : Type} [Ord κ]

/-- The dictionary with no entry. -/
def empty : Dict κ α :=
  ⟨[], .nil⟩

instance : Inhabited (Dict κ α) :=
  ⟨empty⟩

/-- Number of entries. -/
def size (dict : Dict κ α) : Nat :=
  dict.entries.length

/-- The keys, ascending. -/
def keys (dict : Dict κ α) : List κ :=
  dict.entries.map (·.1)

/-- The value of a key among listed entries. -/
def lookup? (key : κ) : List (κ × α) → Option α
  | [] => none
  | entry :: entries =>
      if compare key entry.1 = .eq then some entry.2 else lookup? key entries

/-- The value of a key. -/
def find? (dict : Dict κ α) (key : κ) : Option α :=
  lookup? key dict.entries

/-- Does the dictionary have the key? -/
def contains (dict : Dict κ α) (key : κ) : Bool :=
  (dict.find? key).isSome

/-- Put an entry in its place, over one that has the same key. -/
def place (key : κ) (value : α) : List (κ × α) → List (κ × α)
  | [] => [(key, value)]
  | entry :: entries =>
      match compare key entry.1 with
      | .lt => (key, value) :: entry :: entries
      | .eq => (key, value) :: entries
      | .gt => entry :: place key value entries

/-- An entry after a placement is the new one or an old one. -/
theorem mem_place {key : κ} {value : α} {entries : List (κ × α)} {entry : κ × α}
    (hmem : entry ∈ place key value entries) : entry = (key, value) ∨ entry ∈ entries := by
  induction entries with
  | nil => simpa [place] using hmem
  | cons head entries ih =>
      simp only [place] at hmem
      split at hmem
      · simpa using hmem
      · rcases List.mem_cons.mp hmem with hhead | htail
        · exact .inl hhead
        · exact .inr (List.mem_cons_of_mem _ htail)
      · rcases List.mem_cons.mp hmem with hhead | htail
        · exact .inr (hhead ▸ List.mem_cons_self)
        · rcases ih htail with hnew | hold
          · exact .inl hnew
          · exact .inr (List.mem_cons_of_mem _ hold)

/-- Looking up a key among entries with one placed. -/
theorem lookup?_place [Std.LawfulEqOrd κ] (key other : κ) (value : α) (entries : List (κ × α)) :
    lookup? other (place key value entries) =
      if compare other key = .eq then some value else lookup? other entries := by
  induction entries with
  | nil => simp [place, lookup?]
  | cons head entries ih =>
      simp only [place]
      split
      case h_1 => simp [lookup?]
      case h_2 heq =>
        have hkey : key = head.1 := Std.LawfulEqCmp.eq_of_compare heq
        simp only [lookup?, ← hkey]
        split <;> rfl
      case h_3 hgt =>
        simp only [lookup?, ih]
        by_cases hhead : compare other head.1 = .eq
        · have hother : other = head.1 := Std.LawfulEqCmp.eq_of_compare hhead
          have hne : compare other key ≠ .eq := by
            intro heq
            have hkey : other = key := Std.LawfulEqCmp.eq_of_compare heq
            rw [← hother, ← hkey] at hgt
            simp at hgt
          simp [hhead, hne]
        · simp [hhead]

/-- A value that is found is listed with its key. -/
theorem mem_of_lookup?_eq_some [Std.LawfulEqOrd κ] {key : κ} {value : α}
    {entries : List (κ × α)} (hfound : lookup? key entries = some value) :
    (key, value) ∈ entries := by
  induction entries with
  | nil => cases hfound
  | cons head entries ih =>
      rw [lookup?] at hfound
      split at hfound
      case isTrue heq =>
        have hkey : key = head.1 := Std.LawfulEqCmp.eq_of_compare heq
        cases hfound
        exact hkey ▸ List.mem_cons_self
      case isFalse => exact List.mem_cons_of_mem _ (ih hfound)

/-- A value is found under a key when it is listed with it. -/
theorem find?_eq_some_iff [Std.LawfulEqOrd κ] {dict : Dict κ α} {key : κ} {value : α} :
    dict.find? key = some value ↔ (key, value) ∈ dict.entries := by
  rcases dict with ⟨entries, hsorted⟩
  refine ⟨mem_of_lookup?_eq_some, fun hmem => ?_⟩
  change lookup? key entries = some value
  induction entries with
  | nil => cases hmem
  | cons head entries ih =>
      rcases List.pairwise_cons.mp hsorted with ⟨hhead, htail⟩
      rw [lookup?]
      rcases List.mem_cons.mp hmem with rfl | hmem
      · simp
      · have hlt := hhead _ hmem
        have hne : compare key head.1 ≠ .eq := by
          intro heq
          rw [Std.LawfulEqCmp.eq_of_compare heq] at hlt
          simp at hlt
        rw [if_neg hne]
        exact ih htail hmem

variable [Std.TransOrd κ] [Std.LawfulEqOrd κ]

/-- Placing an entry keeps the keys strictly ascending. -/
theorem sorted_place (key : κ) (value : α) {entries : List (κ × α)}
    (hsorted : entries.Pairwise fun left right => compare left.1 right.1 = .lt) :
    (place key value entries).Pairwise fun left right => compare left.1 right.1 = .lt := by
  induction entries with
  | nil => simp [place]
  | cons head entries ih =>
      rcases List.pairwise_cons.mp hsorted with ⟨hhead, htail⟩
      simp only [place]
      split
      case h_1 hlt =>
        refine List.pairwise_cons.mpr ⟨fun entry hmem => ?_, hsorted⟩
        rcases List.mem_cons.mp hmem with rfl | hmem
        · exact hlt
        · exact Std.TransCmp.lt_trans hlt (hhead entry hmem)
      case h_2 heq =>
        have hkey : key = head.1 := Std.LawfulEqCmp.eq_of_compare heq
        refine List.pairwise_cons.mpr ⟨fun entry hmem => ?_, htail⟩
        exact hkey ▸ hhead entry hmem
      case h_3 hgt =>
        refine List.pairwise_cons.mpr ⟨fun entry hmem => ?_, ih htail⟩
        rcases mem_place hmem with rfl | hmem
        · exact Std.OrientedCmp.gt_iff_lt.mp hgt
        · exact hhead entry hmem

/-- Set the value of a key. -/
def insert (dict : Dict κ α) (key : κ) (value : α) : Dict κ α :=
  ⟨place key value dict.entries, sorted_place key value dict.sorted⟩

/-- The dictionary of a list of entries, in which a later value of a key
replaces an earlier one. -/
def ofList (entries : List (κ × α)) : Dict κ α :=
  entries.foldl (fun dict entry => dict.insert entry.1 entry.2) empty

/-- Setting the value of a key changes that key alone. -/
theorem find?_insert (dict : Dict κ α) (key other : κ) (value : α) :
    (dict.insert key value).find? other =
      if compare other key = .eq then some value else dict.find? other :=
  lookup?_place key other value dict.entries

@[simp]
theorem find?_insert_self (dict : Dict κ α) (key : κ) (value : α) :
    (dict.insert key value).find? key = some value := by
  simp [find?_insert]

end Dict

end SeedLogic
