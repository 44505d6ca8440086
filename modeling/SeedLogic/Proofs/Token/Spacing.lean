import SeedLogic.Proofs.Token.Exactness

/-!
# Spacing

Blanks between the pieces of a text are free, as long as no two words are neighbours
(`Spaced.shown`).  With one blank between them, any tokens that can be written are the
tokens of a text (`exists_text`).
-/

namespace SeedLogic

open Text (isBlank)

/-! ## Tokens with a text -/

/-- Kinds of tokens that can be written. -/
def TokenKind.Writable (kind : TokenKind) : Prop :=
  ∃ face : Face, face.Legible ∧ face.kind = kind

theorem TokenKind.not_writable_eof : ¬ Writable .eof := by
  rintro ⟨face, hlegible, hkind⟩
  cases hlegible with
  | name => cases hkind
  | number => cases hkind
  | sign hsign =>
      cases hkind
      exact Lexeme.signKind?_ne_eof _ hsign

/-- Tokens that can be written are tokens of a text. -/
theorem exists_text {kinds : List TokenKind} (hkinds : ∀ kind ∈ kinds, kind.Writable) :
    ∃ text tokens, tokenize text = .ok tokens ∧ tokens.map Token.kind = kinds ++ [.eof] := by
  obtain ⟨faces, hfaces, rfl⟩ : ∃ faces : List Face, (∀ face ∈ faces, face.Legible) ∧
      faces.map Face.kind = kinds := by
    induction kinds with
    | nil => exact ⟨[], nofun, rfl⟩
    | cons kind kinds ih =>
        rw [List.forall_mem_cons] at hkinds
        rcases hkinds.1 with ⟨face, hface, rfl⟩
        rcases ih hkinds.2 with ⟨faces, hfaces, rfl⟩
        exact ⟨face :: faces, List.forall_mem_cons.mpr ⟨hface, hfaces⟩, rfl⟩
  have hshown := Shown.intercalate (forall₂_shown_of_legible hfaces)
  rw [← List.flatMap_def, ← List.map_eq_flatMap, List.map_id'] at hshown
  rw [← String.toList_ofList (l := [' '].intercalate _)] at hshown
  exact ⟨_, exists_tokenize_of_shown hshown⟩

/-! ## Texts of pieces -/

/-- A text of some pieces, with any blanks in front of, between and behind them. -/
inductive Spaced : List String → List Char → Prop where
  | nil {gap : List Char} : (∀ char ∈ gap, isBlank char = true) → Spaced [] gap
  | cons {gap text : List Char} {piece : String} {pieces : List String} :
      (∀ char ∈ gap, isBlank char = true) → Spaced pieces text →
      Spaced (piece :: pieces) (gap ++ (piece.toList ++ text))

/-- A face that is not a word. -/
def Face.IsSign (face : Face) : Prop :=
  ∃ char, face.text.toList = [char] ∧ isWordChar char = false

/-- Faces of which no two neighbours are words. -/
def Divided (faces : List Face) : Prop :=
  faces.IsChain fun first second => first.IsSign ∨ second.IsSign

theorem Divided.cons_sign {face : Face} {faces : List Face} (hface : face.IsSign)
    (hfaces : Divided faces) : Divided (face :: faces) := by
  cases faces with
  | nil => exact .singleton face
  | cons next faces => exact .cons_cons (.inl hface) hfaces

theorem Divided.of_cons {face : Face} {faces : List Face} (hdivided : Divided (face :: faces)) :
    Divided faces := by
  cases faces with
  | nil => exact .nil
  | cons next faces => exact (List.isChain_cons_cons.mp hdivided).2

theorem isWordChar_of_isBlank {char : Char} (hblank : isBlank char = true) :
    isWordChar char = false := by
  rw [Bool.eq_false_iff]
  intro hword
  rw [isBlank_of_isWordChar hword] at hblank
  cases hblank

/-- Blanks in front of a text show nothing. -/
theorem shown_gap_append {gap text : List Char} {faces : List Face}
    (hgap : ∀ char ∈ gap, isBlank char = true) (hshown : Shown text faces) :
    Shown (gap ++ text) faces := by
  induction gap with
  | nil => exact hshown
  | cons char gap ih =>
      rw [List.forall_mem_cons] at hgap
      have hblank : Shown [char] [] := by
        rw [Shown, Lexeme.split_cons, if_pos hgap.1]
        exact .nil
      exact hblank.append (ih hgap.2) (apart_singleton (isWordChar_of_isBlank hgap.1))

/-- No word begins a text whose first piece is not a word. -/
theorem Spaced.isWordChar_head {faces : List Face} {text : List Char}
    (hspaced : Spaced (faces.map Face.text) text) (hfaces : ∀ face ∈ faces.head?, face.IsSign) :
    ∀ first ∈ text.head?, isWordChar first = false := by
  intro first hfirst
  have hgap : ∀ {gap : List Char}, (∀ char ∈ gap, isBlank char = true) → first ∈ gap.head? →
      isWordChar first = false := fun hblank hmem =>
    isWordChar_of_isBlank (hblank first (List.mem_of_mem_head? hmem))
  cases faces with
  | nil =>
      cases hspaced with
      | nil hblank => exact hgap hblank hfirst
  | cons face faces =>
      rw [List.map_cons] at hspaced
      cases hspaced with
      | @cons gap text _ _ hblank hrest =>
          cases gap with
          | cons char gap => exact hgap hblank hfirst
          | nil =>
              rcases hfaces face rfl with ⟨char, htext, hchar⟩
              rw [htext] at hfirst
              cases hfirst
              exact hchar

/-- A spaced text shows its pieces, when no two words are neighbours. -/
theorem Spaced.shown {faces : List Face} (hlegible : ∀ face ∈ faces, face.Legible)
    (hdivided : Divided faces) {text : List Char} (hspaced : Spaced (faces.map Face.text) text) :
    Shown text faces := by
  induction faces generalizing text with
  | nil =>
      cases hspaced with
      | @nil gap hgap =>
          have hnothing : Shown [] [] := .nil
          simpa using shown_gap_append hgap hnothing
  | cons face faces ih =>
      rw [List.forall_mem_cons] at hlegible
      rw [List.map_cons] at hspaced
      cases hspaced with
      | @cons gap text _ _ hgap hrest =>
          have hshown := ih hlegible.2 hdivided.of_cons hrest
          apply shown_gap_append hgap
          refine hlegible.1.shown.append hshown fun last hlast first hfirst hword => ?_
          cases faces with
          | nil => exact hrest.isWordChar_head nofun first hfirst
          | cons next faces =>
              rcases (List.isChain_cons_cons.mp hdivided).1 with ⟨char, htext, hchar⟩ | hnext
              · rw [htext, List.getLast?_singleton, Option.mem_some_iff] at hlast
                rw [← hlast, hchar] at hword
                cases hword
              · refine hrest.isWordChar_head (fun other hother => ?_) first hfirst
                cases hother
                exact hnext

end SeedLogic
