import SeedLogic.Text.Span

/-!
# Character boundaries

A text can be cut at its character boundaries only.  `cut?` is the stretch of a text
between two places, which are counted in bytes, and has no answer where one of them lies
inside a character.  What an error message quotes at a boundary is a beginning of what
stands there (`Span.Quotes`).
-/

namespace SeedLogic.Text

variable {text : List Char}

/-- Only the empty text has no bytes. -/
theorem eq_nil_of_byteWidth (hwidth : byteWidth text = 0) : text = [] := by
  cases text with
  | nil => rfl
  | cons char chars =>
      have hpos := char.utf8Size_pos
      rw [byteWidth_cons] at hwidth
      omega

/-- Is a place between two characters of a text, or at one of its ends? -/
def isBoundary : Nat → List Char → Bool
  | 0, _ => true
  | _ + 1, [] => false
  | count + 1, char :: chars =>
      char.utf8Size ≤ count + 1 && isBoundary (count + 1 - char.utf8Size) chars

@[simp]
theorem isBoundary_zero (text : List Char) : isBoundary 0 text = true := by
  cases text <;> rfl

/-- Every beginning of a text ends at a boundary. -/
@[simp]
theorem isBoundary_append (left right : List Char) :
    isBoundary (byteWidth left) (left ++ right) = true := by
  induction left with
  | nil => simp
  | cons char left ih =>
      have hpos := char.utf8Size_pos
      obtain ⟨count, hcount⟩ : ∃ count, byteWidth (char :: left) = count + 1 :=
        ⟨char.utf8Size + byteWidth left - 1, by rw [byteWidth_cons]; omega⟩
      have hle : char.utf8Size ≤ count + 1 := by
        rw [← hcount, byteWidth_cons]; omega
      rw [hcount, List.cons_append, isBoundary, decide_eq_true hle, Bool.true_and, ← hcount,
        byteWidth_cons, Nat.add_sub_cancel_left, ih]

/-- The boundaries of a text are the ends of its beginnings. -/
theorem isBoundary_iff {place : Nat} :
    isBoundary place text = true ↔
      ∃ left right, text = left ++ right ∧ place = byteWidth left := by
  constructor
  · intro hboundary
    induction text generalizing place with
    | nil =>
        cases place with
        | zero => exact ⟨[], [], rfl, rfl⟩
        | succ count => cases hboundary
    | cons char chars ih =>
        cases place with
        | zero => exact ⟨[], char :: chars, rfl, rfl⟩
        | succ count =>
            rw [isBoundary, Bool.and_eq_true, decide_eq_true_eq] at hboundary
            rcases ih hboundary.2 with ⟨left, right, rfl, hplace⟩
            refine ⟨char :: left, right, rfl, ?_⟩
            rw [byteWidth_cons]
            omega
  · rintro ⟨left, right, rfl, rfl⟩
    exact isBoundary_append left right

/-- The stretch of a text from one place to another, when both are boundaries. -/
def cut? (start stop : Nat) (text : List Char) : Option (List Char) :=
  if start ≤ stop ∧ isBoundary start text ∧ isBoundary stop text then
    takeBytes? (stop - start) (dropBytes start text)
  else none

/-- The middle of a text is cut out. -/
theorem cut?_append (left middle right : List Char) :
    cut? (byteWidth left) (byteWidth (left ++ middle)) (left ++ (middle ++ right)) =
      some middle := by
  have hstop := isBoundary_append (left ++ middle) right
  rw [List.append_assoc] at hstop
  have hle : byteWidth left ≤ byteWidth (left ++ middle) := by
    rw [byteWidth_append]
    exact Nat.le_add_right _ _
  rw [cut?, if_pos ⟨hle, isBoundary_append left _, hstop⟩, dropBytes_byteWidth_append,
    byteWidth_append, Nat.add_sub_cancel_left, takeBytes?_byteWidth_append]

/-! ## Sizes of strings -/

theorem utf8ByteSize_ofList (chars : List Char) :
    (String.ofList chars).utf8ByteSize = byteWidth chars := by
  induction chars with
  | nil => rfl
  | cons char chars ih =>
      rw [byteWidth_cons, ← ih]
      simp

theorem byteWidth_toList (text : String) : byteWidth text.toList = text.utf8ByteSize := by
  rw [← utf8ByteSize_ofList, String.ofList_toList]

theorem isBoundary_utf8ByteSize (text : String) :
    isBoundary text.utf8ByteSize text.toList = true := by
  have hboundary := isBoundary_append text.toList []
  rwa [List.append_nil, byteWidth_toList] at hboundary

/-! ## Quotations -/

theorem takeBytes?_isPrefix {count : Nat} {taken : List Char}
    (htake : takeBytes? count text = some taken) : taken <+: text := by
  induction text generalizing count taken with
  | nil => cases count <;> cases htake <;> exact List.prefix_rfl
  | cons char chars ih =>
      cases count with
      | zero =>
          cases htake
          exact List.nil_prefix
      | succ count =>
          rw [takeBytes?] at htake
          split at htake
          case isTrue =>
            rcases Option.map_eq_some_iff.mp htake with ⟨rest, hrest, rfl⟩
            exact List.cons_prefix_cons.mpr ⟨rfl, ih hrest⟩
          case isFalse => cases htake

theorem takeBytes?_ne_nil {count : Nat} {taken : List Char} (hcount : 0 < count)
    (hne : text ≠ []) (htake : takeBytes? count text = some taken) : taken ≠ [] := by
  rcases List.exists_cons_of_ne_nil hne with ⟨char, chars, rfl⟩
  obtain ⟨count, rfl⟩ := Nat.exists_eq_succ_of_ne_zero (Nat.ne_of_gt hcount)
  rw [takeBytes?] at htake
  split at htake
  case isTrue =>
    rcases Option.map_eq_some_iff.mp htake with ⟨rest, -, rfl⟩
    exact List.cons_ne_nil char rest
  case isFalse => cases htake

namespace Span

/-- A phrase is what is quoted of a text at a place: a beginning of what stands there,
which is not empty, or the phrase for the end of the text. -/
structure Quotes (text : String) (place : Nat) (phrase : String) : Prop where
  le : place ≤ text.utf8ByteSize
  boundary : isBoundary place text.toList = true
  atEnd : place = text.utf8ByteSize → phrase = "<end of input>"
  inside : place < text.utf8ByteSize →
    phrase ≠ "" ∧ phrase.toList <+: dropBytes place text.toList

/-- The fragment of a span that begins at a boundary is quoted from there. -/
theorem quotes_fragment {span : Span} {text : String}
    (hboundary : isBoundary span.offset text.toList = true) :
    Quotes text span.offset (span.fragment text) := by
  rcases isBoundary_iff.mp hboundary with ⟨left, right, htext, hplace⟩
  have hsize : text.utf8ByteSize = span.offset + byteWidth right := by
    rw [← byteWidth_toList, htext, byteWidth_append, hplace]
  have hrest : dropBytes span.offset text.toList = right := by
    rw [htext, hplace, dropBytes_byteWidth_append]
  refine ⟨hsize ▸ Nat.le_add_right _ _, hboundary, ?_, ?_⟩
  · intro hend
    rw [fragment, hrest]
    cases right with
    | nil => rfl
    | cons char chars =>
        have hpos := char.utf8Size_pos
        rw [byteWidth_cons] at hsize
        omega
  · intro hinside
    rw [fragment, hrest]
    cases right with
    | nil =>
        rw [byteWidth_nil] at hsize
        omega
    | cons char chars =>
        simp only [String.toList_ofList, ne_eq, String.ofList_eq_empty_iff]
        cases htake : takeBytes? (max span.width 1) (char :: chars) with
        | none => exact ⟨List.cons_ne_nil char chars, List.prefix_rfl⟩
        | some taken =>
            have hcount : 0 < max span.width 1 := by omega
            exact ⟨takeBytes?_ne_nil hcount (List.cons_ne_nil _ _) htake,
              takeBytes?_isPrefix htake⟩

/-- The fragment of a span that covers something is just that. -/
theorem fragment_append {span : Span} {text : String} {left middle right : List Char}
    (htext : text.toList = left ++ (middle ++ right)) (hne : middle ≠ [])
    (hoffset : span.offset = byteWidth left) (hwidth : span.width = byteWidth middle) :
    span.fragment text = String.ofList middle := by
  rcases List.exists_cons_of_ne_nil hne with ⟨char, chars, rfl⟩
  have hpos := char.utf8Size_pos
  have hmax : max span.width 1 = byteWidth (char :: chars) := by
    rw [hwidth, byteWidth_cons]
    omega
  rw [fragment, htext, hoffset, dropBytes_byteWidth_append]
  change String.ofList ((takeBytes? (max span.width 1) (char :: chars ++ right)).getD _) = _
  rw [hmax, takeBytes?_byteWidth_append, Option.getD_some]

end Span

end SeedLogic.Text
