import SeedLogic.Proofs.Formula.Cutting
import SeedLogic.Proofs.Text.Boundary

/-!
# What texts show

A text shows the faces of its tokens (`Shown`).  Texts that are apart show what they show
joined (`shown_append_iff`), and the text that some tokens cover shows the faces of these
tokens (`shown_of_scan`).
-/

namespace SeedLogic

open Text (byteWidth dropBytes takeBytes?)

namespace Lexeme

/-- A lexeme is read as a token with a face. -/
def Shows (lexeme : Lexeme) (face : Face) : Prop :=
  ∃ token, lexeme.toToken = .ok token ∧ token.face = face

/-- Where a lexeme is does not matter to its face. -/
theorem shows_shift {width : Nat} {lexeme : Lexeme} {face : Face} :
    (lexeme.shift width).Shows face ↔ lexeme.Shows face := by
  unfold Shows
  cases lexeme with
  | word start word =>
      simp only [shift, toToken]
      split
      · split <;> simp [Token.face]
      · simp [Token.face]
  | sign start sign =>
      simp only [shift, toToken]
      split <;> simp [Token.face]

/-- A token has the place of its lexeme. -/
theorem place_of_toToken {lexeme : Lexeme} {token : Token}
    (htoken : lexeme.toToken = .ok token) :
    token.offset = lexeme.offset ∧ token.stop = lexeme.stop := by
  cases lexeme with
  | word start word =>
      simp only [toToken] at htoken
      split at htoken
      · split at htoken
        · cases htoken
          simp [Token.stop, Token.span, Text.Span.stop, stop, offset, chars,
            Text.utf8ByteSize_ofList]
        · cases htoken
      · cases htoken
        simp [Token.stop, Token.span, Text.Span.stop, stop, offset, chars,
            Text.utf8ByteSize_ofList]
  | sign start sign =>
      simp only [toToken] at htoken
      split at htoken
      · cases htoken
        simp [Token.stop, Token.span, Text.Span.stop, stop, offset, chars]
      · cases htoken

end Lexeme

/-! ## Texts -/

/-- A text is read as tokens with these faces. -/
def Shown (text : List Char) (faces : List Face) : Prop :=
  List.Forall₂ Lexeme.Shows (Lexeme.split 0 text) faces

/-- What a text shows does not depend on where it begins. -/
theorem shown_iff (place : Nat) {text : List Char} {faces : List Face} :
    Shown text faces ↔ List.Forall₂ Lexeme.Shows (Lexeme.split place text) faces := by
  have hsplit := Lexeme.split_add 0 place text
  rw [Nat.zero_add] at hsplit
  rw [hsplit, List.forall₂_map_left_iff]
  simp only [Lexeme.shows_shift]
  rfl

theorem forall₂_append_left_iff {α β : Type} {related : α → β → Prop} {left right : List α}
    {results : List β} :
    List.Forall₂ related (left ++ right) results ↔
      ∃ first second, results = first ++ second ∧ List.Forall₂ related left first ∧
        List.Forall₂ related right second := by
  constructor
  · intro hall
    induction left generalizing results with
    | nil => exact ⟨[], results, rfl, .nil, hall⟩
    | cons entry left ih =>
        cases hall with
        | cons hentry hrest =>
            rcases ih hrest with ⟨first, second, rfl, hfirst, hsecond⟩
            exact ⟨_ :: first, second, rfl, .cons hentry hfirst, hsecond⟩
  · rintro ⟨first, second, rfl, hfirst, hsecond⟩
    exact List.rel_append hfirst hsecond

/-- Texts that are apart show what they show joined. -/
theorem shown_append_iff {left right : List Char} (hapart : Apart left right)
    {faces : List Face} :
    Shown (left ++ right) faces ↔
      ∃ first second, faces = first ++ second ∧ Shown left first ∧ Shown right second := by
  have hright : ∀ second, Shown right second ↔
      List.Forall₂ Lexeme.Shows (Lexeme.split (0 + byteWidth left) right) second :=
    fun _ => shown_iff (0 + byteWidth left)
  simp only [hright]
  unfold Shown
  rw [Lexeme.split_append hapart, forall₂_append_left_iff]

theorem Shown.append {left right : List Char} {first second : List Face}
    (hleft : Shown left first) (hright : Shown right second) (hapart : Apart left right) :
    Shown (left ++ right) (first ++ second) :=
  (shown_append_iff hapart).mpr ⟨first, second, rfl, hleft, hright⟩

/-- A character that is in no word shows something of its own. -/
theorem shown_cons_iff {char : Char} {text : List Char} {faces : List Face}
    (hchar : isWordChar char = false) :
    Shown (char :: text) faces ↔
      ∃ first second, faces = first ++ second ∧ Shown [char] first ∧ Shown text second :=
  shown_append_iff (apart_singleton hchar)

/-- A text that is scanned shows the faces of its tokens. -/
theorem shown_of_scan {text : String} {tokens : List Token} (hscan : scan text = .ok tokens) :
    Shown text.toList (tokens.map Token.face) := by
  apply List.forall₂_map_right_iff.mpr
  exact (Outcome.mapM_eq_ok.mp hscan).imp fun lexeme token htoken => ⟨token, htoken, rfl⟩

/-- A text that shows faces is scanned. -/
theorem exists_scan_of_shown {text : String} {faces : List Face}
    (hshown : Shown text.toList faces) :
    ∃ tokens, scan text = .ok tokens ∧ tokens.map Token.face = faces := by
  have htokens : ∀ {lexemes faces}, List.Forall₂ Lexeme.Shows lexemes faces →
      ∃ tokens, lexemes.mapM Lexeme.toToken = .ok tokens ∧ tokens.map Token.face = faces := by
    intro lexemes faces hall
    induction hall with
    | nil => exact ⟨[], rfl, rfl⟩
    | cons hfirst _ ih =>
        rcases hfirst with ⟨token, htoken, hface⟩
        rcases ih with ⟨others, hothers, hfaces⟩
        refine ⟨token :: others, ?_, by rw [List.map_cons, hface, hfaces]⟩
        exact Outcome.mapM_eq_ok.mpr (.cons htoken (Outcome.mapM_eq_ok.mp hothers))
  exact htokens hshown

/-- A sign in front of a text shows itself. -/
theorem Shown.cons_sign {text : List Char} {faces : List Face} (hshown : Shown text faces)
    {char : Char} {kind : TokenKind} (hkind : Lexeme.signKind? char = some kind) :
    Shown (char :: text) (⟨kind, char.toString⟩ :: faces) := by
  have hsign : isWordChar char = false ∧ Lexeme.split 0 [char] = [.sign 0 char] := by
    unfold Lexeme.signKind? at hkind
    split at hkind <;> first | exact ⟨rfl, rfl⟩ | cases hkind
  have hsingle : Shown [char] [⟨kind, char.toString⟩] := by
    unfold Shown
    rw [hsign.2]
    exact .cons ⟨_, by rw [Lexeme.toToken, hkind], rfl⟩ .nil
  exact hsingle.append hshown (apart_singleton hsign.1)

/-- A blank in front of a text shows nothing. -/
theorem Shown.cons_blank {text : List Char} {faces : List Face} (hshown : Shown text faces) :
    Shown (' ' :: text) faces := by
  have hblank : Shown [' '] [] := .nil
  exact hblank.append hshown (apart_singleton rfl)

/-! ## Parts of texts -/

/-- The part of a text between two places. -/
def Text.slice (start stop : Nat) (text : List Char) : List Char :=
  (takeBytes? (stop - start) (dropBytes start text)).getD []

/-- The text that some of its tokens cover, from the first to the last. -/
def Token.covered (text : List Char) (tokens : List Token) : List Char :=
  Text.slice (Token.nextSpan 0 tokens).offset (Reader.argumentStop 0 tokens) text

theorem Text.slice_append (left middle right : List Char) :
    slice (byteWidth left) (byteWidth (left ++ middle)) (left ++ (middle ++ right)) = middle := by
  rw [slice, dropBytes_byteWidth_append, byteWidth_append, Nat.add_sub_cancel_left,
    takeBytes?_byteWidth_append, Option.getD_some]

/-- Tokens of a text begin and end where their lexemes do. -/
theorem places_of_toToken {lexemes : List Lexeme} {tokens : List Token}
    (htokens : List.Forall₂ (fun lexeme token => Lexeme.toToken lexeme = .ok token) lexemes tokens)
    (hne : tokens ≠ []) :
    ∃ first others, lexemes = first :: others ∧
      first.offset = (Token.nextSpan 0 tokens).offset ∧
      lexemes.getLast?.map Lexeme.stop = some (Reader.argumentStop 0 tokens) := by
  have hlast : ∀ {lexemes tokens}, List.Forall₂ (fun lexeme token =>
      Lexeme.toToken lexeme = .ok token) lexemes tokens →
      lexemes.getLast?.map Lexeme.stop = tokens.getLast?.map Token.stop := by
    intro lexemes tokens htokens
    induction htokens with
    | nil => rfl
    | cons hfirst hrest ih =>
        cases hrest with
        | nil =>
            rw [List.getLast?_singleton, List.getLast?_singleton, Option.map_some,
              Option.map_some, (Lexeme.place_of_toToken hfirst).2]
        | cons => rwa [List.getLast?_cons_cons, List.getLast?_cons_cons]
  have hstop := hlast htokens
  cases htokens with
  | nil => exact absurd rfl hne
  | @cons lexeme token lexemes tokens hfirst _ =>
      obtain ⟨last, hget⟩ : ∃ last, (token :: tokens).getLast? = some last :=
        Option.isSome_iff_exists.mp (by simp)
      rw [hget, Option.map_some] at hstop
      refine ⟨lexeme, lexemes, rfl, (Lexeme.place_of_toToken hfirst).1.symm, ?_⟩
      rw [hstop, Reader.argumentStop, hget, Option.map_some, Option.getD_some]

/-- Tokens cut a text in three: what they cover, what is in front of it and what is behind
it.  Each part shows the faces of its tokens. -/
theorem exists_parts {text : String} {left middle right : List Token}
    (hscan : scan text = .ok (left ++ (middle ++ right))) (hmiddle : middle ≠ []) :
    ∃ front covered back, text.toList = front ++ (covered ++ back) ∧
      (Token.nextSpan 0 middle).offset = byteWidth front ∧
      Reader.argumentStop 0 middle = byteWidth (front ++ covered) ∧
      Shown front (left.map Token.face) ∧ Shown covered (middle.map Token.face) ∧
      Shown back (right.map Token.face) := by
  have hfaces : ∀ {lexemes tokens}, List.Forall₂ (fun token lexeme =>
      Lexeme.toToken lexeme = .ok token) tokens lexemes →
      List.Forall₂ Lexeme.Shows lexemes (tokens.map Token.face) := fun htokens =>
    List.forall₂_map_right_iff.mpr (htokens.flip.imp fun _ token htoken => ⟨token, htoken, rfl⟩)
  have hall := Outcome.mapM_eq_ok.mp hscan
  rcases forall₂_append_left_iff.mp hall.flip with ⟨before, behind, hsplit, hbefore, hbehind⟩
  rcases forall₂_append_left_iff.mp hbehind with ⟨inside, after, rfl, hinside, hafter⟩
  rcases places_of_toToken hinside.flip hmiddle with ⟨first, others, rfl, hstart, hstop⟩
  rcases Lexeme.split_before hsplit with ⟨front, rest, htext, hcut, hfront, hrest⟩
  rcases Lexeme.split_behind hrest hstop with ⟨covered, back, rfl, hend, hcovered, hback⟩
  rw [Nat.zero_add] at hcut
  rw [hcut] at hstart hend hcovered
  rw [← Text.byteWidth_append] at hend
  refine ⟨front, covered, back, htext, hstart.symm, hend, ?_, ?_, ?_⟩
  · unfold Shown
    rw [hfront]
    exact hfaces hbefore
  · rw [shown_iff (byteWidth front), hcovered]
    exact hfaces hinside
  · rw [shown_iff (byteWidth (front ++ covered)), ← hend, hback]
    exact hfaces hafter

/-- The three parts as slices of the text. -/
theorem shown_parts {text : String} {left middle right : List Token}
    (hscan : scan text = .ok (left ++ (middle ++ right))) (hmiddle : middle ≠ []) :
    Shown (Text.slice 0 (Token.nextSpan 0 middle).offset text.toList) (left.map Token.face) ∧
      Shown (Token.covered text.toList middle) (middle.map Token.face) ∧
      Shown (dropBytes (Reader.argumentStop 0 middle) text.toList) (right.map Token.face) := by
  obtain ⟨front, covered, back, htext, hstart, hstop, hfront, hcovered, hback⟩ :=
    exists_parts hscan hmiddle
  have hwhole : text.toList = (front ++ covered) ++ back := by
    rw [htext, List.append_assoc]
  refine ⟨?_, ?_, ?_⟩
  · rwa [hstart, htext, Text.slice, Text.dropBytes_zero, Nat.sub_zero,
      Text.takeBytes?_byteWidth_append, Option.getD_some]
  · rwa [Token.covered, hstart, hstop, htext, Text.slice_append]
  · rwa [hstop, hwhole, Text.dropBytes_byteWidth_append]

end SeedLogic
