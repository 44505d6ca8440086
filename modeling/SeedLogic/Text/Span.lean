/-!
# Spans of a text

Places in a text are counted in UTF-8 bytes.  A `Span` is a stretch of a text,
and `Span.fragment` is the piece of the text that an error message quotes for it.
-/

namespace SeedLogic.Text

/-- Number of UTF-8 bytes of a list of characters. -/
def byteWidth : List Char → Nat
  | [] => 0
  | char :: chars => char.utf8Size + byteWidth chars

@[simp]
theorem byteWidth_nil : byteWidth [] = 0 :=
  rfl

@[simp]
theorem byteWidth_cons (char : Char) (chars : List Char) :
    byteWidth (char :: chars) = char.utf8Size + byteWidth chars :=
  rfl

@[simp]
theorem byteWidth_append (left right : List Char) :
    byteWidth (left ++ right) = byteWidth left + byteWidth right := by
  induction left with
  | nil => simp
  | cons char left ih => simp [ih, Nat.add_assoc]

/-- What is left after the first `count` bytes.  A character that is cut by
that place is dropped whole. -/
def dropBytes : Nat → List Char → List Char
  | 0, chars => chars
  | _ + 1, [] => []
  | count + 1, char :: chars => dropBytes (count + 1 - char.utf8Size) chars

/-- The first `count` bytes, or everything when there are fewer.  There is no
answer when that place lies inside a character. -/
def takeBytes? : Nat → List Char → Option (List Char)
  | 0, _ => some []
  | _ + 1, [] => some []
  | count + 1, char :: chars =>
      if char.utf8Size ≤ count + 1 then
        (takeBytes? (count + 1 - char.utf8Size) chars).map (char :: ·)
      else none

@[simp]
theorem dropBytes_zero (chars : List Char) : dropBytes 0 chars = chars := by
  cases chars <;> rfl

@[simp]
theorem takeBytes?_zero (chars : List Char) : takeBytes? 0 chars = some [] := by
  cases chars <;> rfl

/-- Dropping the bytes of a beginning leaves the rest. -/
@[simp]
theorem dropBytes_byteWidth_append (left right : List Char) :
    dropBytes (byteWidth left) (left ++ right) = right := by
  induction left with
  | nil => simp
  | cons char left ih =>
      have hpos := char.utf8Size_pos
      obtain ⟨count, hcount⟩ : ∃ count, byteWidth (char :: left) = count + 1 :=
        ⟨char.utf8Size + byteWidth left - 1, by rw [byteWidth_cons]; omega⟩
      rw [hcount, List.cons_append, dropBytes, ← hcount, byteWidth_cons,
        Nat.add_sub_cancel_left, ih]

/-- Taking the bytes of a beginning gives that beginning. -/
@[simp]
theorem takeBytes?_byteWidth_append (left right : List Char) :
    takeBytes? (byteWidth left) (left ++ right) = some left := by
  induction left with
  | nil => simp
  | cons char left ih =>
      have hpos := char.utf8Size_pos
      obtain ⟨count, hcount⟩ : ∃ count, byteWidth (char :: left) = count + 1 :=
        ⟨char.utf8Size + byteWidth left - 1, by rw [byteWidth_cons]; omega⟩
      have hle : char.utf8Size ≤ count + 1 := by
        rw [← hcount, byteWidth_cons]; omega
      rw [hcount, List.cons_append, takeBytes?, if_pos hle, ← hcount, byteWidth_cons,
        Nat.add_sub_cancel_left, ih]
      rfl

/-- A stretch of a text: where it begins, and how many bytes it has. -/
structure Span where
  offset : Nat
  width : Nat
  deriving DecidableEq, Repr

namespace Span

/-- The offset just behind a span. -/
def stop (span : Span) : Nat :=
  span.offset + span.width

/-- The piece of `text` quoted for a span: at least one byte of it, the whole
rest when the span ends inside a character, and a phrase behind the last
character. -/
def fragment (span : Span) (text : String) : String :=
  match dropBytes span.offset text.toList with
  | [] => "<end of input>"
  | rest => String.ofList ((takeBytes? (max span.width 1) rest).getD rest)

end Span

end SeedLogic.Text
