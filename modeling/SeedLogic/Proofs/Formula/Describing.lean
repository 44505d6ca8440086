import SeedLogic.Proofs.Formula.Legibility
import SeedLogic.Proofs.Requirement.Normality
import SeedLogic.Proofs.Text.Decimal
import SeedLogic.Requirement.Description

/-!
# Descriptions are read back

The description of a normal requirement whose names can be written spells a formula that
is compiled to the requirement again (`Requirement.readable_of_normal`).  Whatever has
been read is such a requirement, so that its description is read back as itself, and no
name is new in it (`Requirement.parse_describe`).
-/

namespace SeedLogic

open Text (decimalValue)

/-! ## What is shown -/

theorem isWordChar_of_isDigit {char : Char} (hdigit : char.isDigit = true) :
    isWordChar char = true := by
  rw [isWordChar, Char.isAlphanum, hdigit, Bool.or_true, Bool.true_or]

/-- A legible face is shown by its text. -/
theorem Face.Legible.shown {face : Face} (hlegible : face.Legible) :
    Shown face.text.toList [face] := by
  cases hlegible with
  | @name name hname =>
      unfold Shown
      rw [Lexeme.split_eq_word hname.words hname.ne_nil]
      refine .cons ⟨⟨.ident name, 0, name⟩, ?_, rfl⟩ .nil
      rw [Lexeme.toToken, hname.letter, String.ofList_toList]
      rfl
  | @number text hne hdigits hlimit =>
      have hwords : ∀ char ∈ text.toList, isWordChar char = true := fun char hchar =>
        isWordChar_of_isDigit (List.all_eq_true.mp hdigits char hchar)
      unfold Shown
      rw [Lexeme.split_eq_word hwords hne]
      refine .cons ⟨⟨.number (decimalValue text.toList), 0, text⟩, ?_, rfl⟩ .nil
      rw [Lexeme.toToken, hdigits, if_pos rfl, if_pos hlimit, String.ofList_toList]
  | @sign char kind hkind =>
      have hnothing : Shown [] [] := .nil
      have hshown := hnothing.cons_sign hkind
      simpa using hshown

/-- The face of a name. -/
def nameFace (name : String) : Face :=
  ⟨.ident name, name⟩

/-- The face of a number. -/
def numberFace (number : Nat) : Face :=
  ⟨.number number, toString number⟩

theorem legible_numberFace {number : Nat} (hlimit : number < Lexeme.numberLimit) :
    (numberFace number).Legible := by
  have hlegible := @Face.Legible.number (toString number) (Text.toList_toString_ne_nil number)
    (List.all_eq_true.mpr fun char => Text.isDigit_of_mem_toString)
  rw [Text.decimalValue_toString] at hlegible
  exact hlegible hlimit

theorem Shown.group {text : List Char} {faces : List Face} (hshown : Shown text faces) :
    Shown ('(' :: (text ++ [')'])) (⟨.lparen, "("⟩ :: (faces ++ [⟨.rparen, ")"⟩])) := by
  have hnothing : Shown [] [] := .nil
  have hclosing : Shown [')'] [⟨.rparen, ")"⟩] := hnothing.cons_sign rfl
  exact (hshown.append hclosing (apart_of_first rfl)).cons_sign rfl

/-- A call shows its head and what stands in its parentheses. -/
theorem Shown.call {head : String} (hhead : IsName head) {text : List Char} {faces : List Face}
    (hshown : Shown text faces) :
    Shown (head.toList ++ '(' :: (text ++ [')']))
      (nameFace head :: ⟨.lparen, "("⟩ :: (faces ++ [⟨.rparen, ")"⟩])) :=
  (Face.Legible.name hhead).shown.append hshown.group (apart_of_first rfl)

namespace Separator

/-- The sign of a separator. -/
def sign : Separator → Char
  | .or => '|'
  | .and => '&'
  | .comma => ','

/-- The face of a separator. -/
def face (separator : Separator) : Face :=
  ⟨separator.kind, separator.sign.toString⟩

theorem kind_face (separator : Separator) : separator.face.kind = separator.kind :=
  rfl

/-- A separator as descriptions write it. -/
def text : Separator → String
  | .or => " | "
  | .and => " & "
  | .comma => ", "

/-- A separator between two texts shows itself. -/
theorem shown (separator : Separator) {left right : List Char} {first second : List Face}
    (hleft : Shown left first) (hright : Shown right second) :
    Shown (left ++ (separator.text.toList ++ right))
      (first ++ separator.face :: second) := by
  have hright := hright.cons_blank
  cases separator with
  | or => exact hleft.append (hright.cons_sign rfl).cons_blank (apart_of_first rfl)
  | and => exact hleft.append (hright.cons_sign rfl).cons_blank (apart_of_first rfl)
  | comma => exact hleft.append (hright.cons_sign rfl) (apart_of_first rfl)

end Separator

/-! ## What is derived -/

theorem Reader.Builtin.isName (builtin : Builtin) : IsName builtin.name := by
  cases builtin <;> exact .of_all rfl rfl

theorem Reader.joined_of_two_le {join : List Formula → Formula} {formulas : List Formula}
    (hlength : 2 ≤ formulas.length) : joined join formulas = join formulas := by
  rcases formulas with _ | ⟨first, _ | ⟨second, rest⟩⟩
  · rfl
  · exact absurd hlength (by simp)
  · rfl

namespace Grammar.Derives

variable {grammar : Grammar} {faces : List Face} {formula : Formula}

/-- An operand is a conjunction of its own. -/
theorem conjunction_of_unary (hderives : grammar.Derives .unary faces [formula]) :
    grammar.Derives .conjunction faces [formula] :=
  .conjunction (.last hderives)

/-- An operand is a disjunction of its own. -/
theorem disjunction_of_unary (hderives : grammar.Derives .unary faces [formula]) :
    grammar.Derives .disjunction faces [formula] :=
  .disjunction (.last hderives.conjunction_of_unary)

theorem term_of_unary (hderives : grammar.Derives .unary faces [formula])
    (separator : Separator) : grammar.Derives separator.term faces [formula] := by
  cases separator with
  | or => exact hderives.conjunction_of_unary
  | and => exact hderives
  | comma => exact hderives.disjunction_of_unary

end Grammar.Derives

/-! ## Names -/

namespace Symbols

variable {symbols : Symbols}

/-- An atom is the number of a term that can be written and whose name is known. -/
def Writes (symbols : Symbols) (atom : Requirement.Atom) : Prop :=
  ∃ term : Formula.Term, term.Legible ∧ (∀ entry, term.mention? = some entry →
    symbols.Knows entry) ∧ atom = term.atom symbols

theorem exists_item_of_writes {id count : Nat} (hwrites : symbols.Writes (.item id count)) :
    ∃ name, symbols.itemName id = name ∧ symbols.items.idOf name = id ∧
      name ∈ symbols.items.keys ∧ IsSymbolName name ∧ 1 ≤ count ∧ count < Lexeme.numberLimit := by
  rcases hwrites with ⟨term, hlegible, hknown, hatom⟩
  cases term with
  | item name least =>
      cases hatom
      have hmem : name ∈ symbols.items.keys := hknown _ rfl
      exact ⟨name, by rw [itemName, NameTable.getElem?_idOf hmem, Option.getD_some], rfl, hmem, hlegible⟩
  | _ => cases hatom

theorem exists_event_of_writes {id : Nat} (hwrites : symbols.Writes (.event id)) :
    ∃ name, symbols.eventName id = name ∧ symbols.events.idOf name = id ∧
      name ∈ symbols.events.keys ∧ IsSymbolName name := by
  rcases hwrites with ⟨term, hlegible, hknown, hatom⟩
  cases term with
  | event name =>
      cases hatom
      have hmem : name ∈ symbols.events.keys := hknown _ rfl
      exact ⟨name, by rw [eventName, NameTable.getElem?_idOf hmem, Option.getD_some], rfl, hmem, hlegible⟩
  | _ => cases hatom

theorem exists_setting_of_writes {id : Nat} (hwrites : symbols.Writes (.setting id)) :
    ∃ key, symbols.settingText id = key.describe ∧ symbols.settings.idOf key = id ∧
      key ∈ symbols.settings.keys ∧ (Formula.Term.setting key).Legible := by
  rcases hwrites with ⟨term, hlegible, hknown, hatom⟩
  cases term with
  | setting key =>
      cases hatom
      have hmem : key ∈ symbols.settings.keys := hknown _ rfl
      exact ⟨key, by rw [settingText, NameTable.getElem?_idOf hmem, Option.map_some,
        Option.getD_some], rfl, hmem, hlegible⟩
  | _ => cases hatom

/-- Known names are known already. -/
theorem mention_of_knows {entry : Mention} (hknows : symbols.Knows entry) :
    symbols.mention entry = symbols := by
  cases entry with
  | item name => rw [mention, NameTable.add_of_mem hknows]
  | event name => rw [mention, NameTable.add_of_mem hknows]
  | setting key => rw [mention, NameTable.add_of_mem hknows]

theorem mentionAll_of_knows {mentions : List Mention}
    (hknows : ∀ entry ∈ mentions, symbols.Knows entry) : symbols.mentionAll mentions = symbols := by
  induction mentions with
  | nil => rfl
  | cons entry mentions ih =>
      rw [List.forall_mem_cons] at hknows
      rw [mentionAll_cons, mention_of_knows hknows.1, ih hknows.2]

end Symbols

namespace Requirement

/-! ## Readable requirements -/

/-- A description shows an operand that is compiled to the requirement and names nothing
new. -/
def Readable (symbols : Symbols) (game : Game) (requirement : Requirement) : Prop :=
  ∃ faces formula, Shown (requirement.describe symbols).toList faces ∧
    (Grammar.plain game).Derives .unary faces [formula] ∧
    formula.compile symbols = requirement ∧ formula.Known symbols

variable {symbols : Symbols} {game : Game}

/-- The descriptions of several operands, separated, show a series of them. -/
theorem exists_series_of_readable (separator : Separator) {operands : List Requirement}
    (hne : operands ≠ []) (hreadable : ∀ operand ∈ operands, Readable symbols game operand) :
    ∃ faces formulas, Shown (describeAll symbols separator.text operands).toList faces ∧
      (Grammar.plain game).Derives (.series separator) faces formulas ∧
      Formula.compileAll symbols formulas = operands ∧
      ∀ entry ∈ Formula.mentionsOfAll formulas, symbols.Knows entry := by
  induction operands with
  | nil => exact absurd rfl hne
  | cons operand operands ih =>
      rw [List.forall_mem_cons] at hreadable
      rcases hreadable.1 with ⟨faces, formula, hshown, hderives, hcompile, hknown⟩
      have hterm := hderives.term_of_unary separator
      cases operands with
      | nil =>
          rw [describeAll_singleton]
          refine ⟨faces, [formula], hshown, .last hterm, ?_, ?_⟩
          · rw [Formula.compileAll, Formula.compileAll, hcompile]
          · rw [Formula.mentionsOfAll, Formula.mentionsOfAll, List.append_nil]
            exact hknown
      | cons next operands =>
          rcases ih (List.cons_ne_nil _ _) hreadable.2 with
            ⟨others, formulas, hothers, hseries, hcompiles, hknows⟩
          refine ⟨_, formula :: formulas, ?_, .more hterm separator.kind_face hseries, ?_, ?_⟩
          · rw [describeAll, String.append_assoc, String.toList_append, String.toList_append]
            exact separator.shown hshown hothers
          · rw [Formula.compileAll, hcompile, hcompiles]
          · rw [Formula.mentionsOfAll]
            exact List.forall_mem_append.mpr ⟨hknown, hknows⟩

theorem readable_const (value : Bool) : Readable symbols game (.const value) := by
  have hname : IsName (constantName value) := by
    cases value <;> exact .of_all rfl rfl
  have hdescribe : (Requirement.const value).describe symbols = constantName value := by
    rw [describe_const]
    cases value <;> rfl
  have hderives : (Grammar.plain game).Derives .primary [nameFace (constantName value)]
      [.const value] := .constant rfl
  refine ⟨_, _, ?_, .plain hderives, ?_, ?_⟩
  · rw [hdescribe]
    exact (Face.Legible.name hname).shown
  · rw [Formula.compile]
  · rw [Formula.Known, Formula.mentions]
    exact nofun

/-- What a call of a function describes is readable. -/
theorem readable_of_applies {requirement : Requirement} {builtin : Reader.Builtin}
    {text : List Char} {arguments : List (List Face)} {faces : List Face} {formula : Formula}
    (hdescribe : (requirement.describe symbols).toList =
      builtin.name.toList ++ '(' :: (text ++ [')']))
    (hshown : Shown text faces) (harguments : ArgumentList arguments faces)
    (happlies : Applies game builtin arguments formula)
    (hcompile : formula.compile symbols = requirement) (hknown : formula.Known symbols) :
    Readable symbols game requirement := by
  have hderives : (Grammar.plain game).Derives .primary
      (nameFace builtin.name :: ⟨.lparen, "("⟩ :: faces ++ [⟨.rparen, ")"⟩]) [formula] :=
    .apply rfl rfl rfl harguments rfl happlies
  exact ⟨_, formula, hdescribe ▸ hshown.call builtin.isName, .plain hderives, hcompile, hknown⟩

/-- An item is described by its name, or with a count by a call of `has`. -/
theorem readable_hasItem {item count : Nat} (hwrites : symbols.Writes (.item item count)) :
    Readable symbols game (.hasItem item count) := by
  rcases Symbols.exists_item_of_writes hwrites with
    ⟨name, hitem, hid, hmem, hname, hpositive, hlimit⟩
  have hnamed : game.symbolName name = name := if_pos hname.namespaced
  have hshown := (Face.Legible.name hname.toIsName).shown
  have hknown : (Formula.item name count).Known symbols := by
    rw [Formula.Known, Formula.mentions, List.forall_mem_singleton]
    exact hmem
  have hcompile : (Formula.item name count).compile symbols = .hasItem item count := by
    rw [Formula.compile, hid]
  by_cases hone : count = 1
  · subst hone
    have hderives : (Grammar.plain game).Derives .primary [nameFace name]
        [.item (game.symbolName name) 1] := .item rfl hname.ne_constantName rfl
    rw [hnamed] at hderives
    refine ⟨_, _, ?_, .plain hderives, hcompile, hknown⟩
    rw [describe, if_pos rfl, hitem]
    exact hshown
  · have happlies : Applies game .has [[nameFace name], [numberFace count]]
        (.item (game.symbolName name) count) := .hasMany rfl rfl hpositive
    rw [hnamed] at happlies
    refine readable_of_applies ?_ (Separator.comma.shown hshown (legible_numberFace hlimit).shown)
      (.more (List.cons_ne_nil _ _) rfl rfl (.last (List.cons_ne_nil _ _) rfl)) happlies hcompile
      hknown
    rw [describe, if_neg hone, hitem]
    simp only [String.toList_append, List.append_assoc]
    rfl

/-- An event is described by a call of `event`. -/
theorem readable_hasEvent {event : Nat} (hwrites : symbols.Writes (.event event)) :
    Readable symbols game (.hasEvent event) := by
  rcases Symbols.exists_event_of_writes hwrites with ⟨name, hevent, hid, hmem, hname⟩
  have hnamed : game.symbolName name = name := if_pos hname.namespaced
  have happlies : Applies game .event [[nameFace name]] (.event (game.symbolName name)) :=
    .event rfl
  rw [hnamed] at happlies
  refine readable_of_applies ?_ (Face.Legible.name hname.toIsName).shown
    (.last (List.cons_ne_nil _ _) rfl) happlies ?_ ?_
  · rw [describe, hevent]
    simp only [String.toList_append, List.append_assoc]
    rfl
  · rw [Formula.compile, hid]
  · rw [Formula.Known, Formula.mentions, List.forall_mem_singleton]
    exact hmem

/-- A setting is described by a call of `setting`, with the value it is compared to. -/
theorem readable_setting {id : Nat} (hwrites : symbols.Writes (.setting id)) :
    Readable symbols game (.setting id) := by
  rcases Symbols.exists_setting_of_writes hwrites with
    ⟨⟨name, value?⟩, hsetting, hid, hmem, hlegible⟩
  rcases hlegible with ⟨hname, hvalue⟩
  have hshown := (Face.Legible.name hname).shown
  have hcompile : (Formula.setting ⟨name, value?⟩).compile symbols = .setting id := by
    rw [Formula.compile, hid]
  have hknown : (Formula.setting ⟨name, value?⟩).Known symbols := by
    rw [Formula.Known, Formula.mentions, List.forall_mem_singleton]
    exact hmem
  cases value? with
  | none =>
      have happlies : Applies game .setting [[nameFace name]] (.setting ⟨name, none⟩) :=
        .setting rfl
      refine readable_of_applies ?_ hshown (.last (List.cons_ne_nil _ _) rfl) happlies hcompile
        hknown
      rw [describe, hsetting]
      simp only [SettingKey.describe, String.toList_append, List.append_assoc]
      rfl
  | some value =>
      rcases hvalue value rfl with ⟨face, hface, rfl, hargument⟩
      have happlies : Applies game .setting [[nameFace name], [face]]
          (.setting ⟨name, some face.text⟩) := .settingValue rfl
      refine readable_of_applies ?_ (Separator.comma.shown hshown hface.shown)
        (.more (List.cons_ne_nil _ _) rfl rfl (.last (List.cons_ne_nil _ _) hargument)) happlies
        hcompile hknown
      rw [describe, hsetting]
      simp only [SettingKey.describe, String.toList_append, List.append_assoc]
      rfl

/-- Operands in parentheses, separated, are readable when they are joined to the
requirement. -/
theorem readable_of_series (separator : Separator) (join : List Formula → Formula)
    {requirement : Requirement} {operands : List Requirement}
    (hdescribe : requirement.describe symbols =
      "(" ++ describeAll symbols separator.text operands ++ ")")
    (hderives : ∀ {faces formulas}, (Grammar.plain game).Derives (.series separator) faces
      formulas → (Grammar.plain game).Derives .disjunction faces [Reader.joined join formulas])
    (hcompile : ∀ {formulas}, Formula.compileAll symbols formulas = operands →
      (join formulas).compile symbols = requirement)
    (hmentions : ∀ formulas, (join formulas).mentions = Formula.mentionsOfAll formulas)
    (hlength : 2 ≤ operands.length)
    (hreadable : ∀ operand ∈ operands, Readable symbols game operand) :
    Readable symbols game requirement := by
  have hne : operands ≠ [] := by
    rintro rfl
    cases hlength
  rcases exists_series_of_readable separator hne hreadable with
    ⟨faces, formulas, hshown, hseries, hcompiles, hknown⟩
  have hmany : 2 ≤ formulas.length := by
    rwa [← hcompiles, Formula.compileAll_eq_map, List.length_map] at hlength
  have hgroup : (Grammar.plain game).Derives .primary
      (⟨.lparen, "("⟩ :: faces ++ [⟨.rparen, ")"⟩]) [Reader.joined join formulas] :=
    .group rfl (hderives hseries) rfl
  rw [Reader.joined_of_two_le hmany] at hgroup
  refine ⟨_, _, ?_, .plain hgroup, hcompile hcompiles, ?_⟩
  · rw [hdescribe, String.toList_append, String.toList_append]
    exact hshown.group
  · rw [Formula.Known, hmentions]
    exact hknown

theorem readable_not {operand : Requirement} (hnormal : (Requirement.not operand).Normal)
    (hreadable : Readable symbols game operand) : Readable symbols game (.not operand) := by
  rcases hreadable with ⟨faces, formula, hshown, hderives, hcompile, hknown⟩
  have hnegation : (Grammar.plain game).Derives .unary (⟨.not, "!"⟩ :: faces) [.not formula] :=
    .negation rfl hderives
  refine ⟨_, _, ?_, hnegation, ?_, ?_⟩
  · rw [describe, String.toList_append]
    exact hshown.cons_sign rfl
  · rw [Formula.compile, hcompile, makeNot_of_normal hnormal]
  · rw [Formula.Known, Formula.mentions]
    exact hknown

theorem readable_atLeast {count : Nat} {operands : List Requirement}
    (hnormal : (Requirement.atLeast count operands).Normal) (hlimit : count < Lexeme.numberLimit)
    (hreadable : ∀ operand ∈ operands, Readable symbols game operand) :
    Readable symbols game (.atLeast count operands) := by
  have hne : operands ≠ [] := by
    rintro rfl
    cases hnormal with
    | atLeast _ hmost _ => exact absurd hmost (Nat.not_lt_zero count)
  rcases exists_series_of_readable .comma hne hreadable with
    ⟨faces, formulas, hshown, hseries, hcompiles, hknown⟩
  have hderives : (Grammar.plain game).Derives .primary
      (nameFace (Reader.Builtin.name .atLeast) :: ⟨.lparen, "("⟩ :: numberFace count ::
        Separator.comma.face :: faces ++ [⟨.rparen, ")"⟩]) [.atLeast count formulas] :=
    .atLeast rfl rfl rfl rfl rfl hseries rfl
  refine ⟨_, _, ?_, .plain hderives, ?_, ?_⟩
  · have hall := Separator.comma.shown (legible_numberFace hlimit).shown hshown
    have hcall := hall.call (Reader.Builtin.isName .atLeast)
    rw [describe]
    simp only [String.toList_append, List.append_assoc] at hcall ⊢
    exact hcall
  · rw [Formula.compile, hcompiles, makeAtLeast_of_normal hnormal]
  · rw [Formula.Known, Formula.mentions]
    exact hknown

/-- Normal requirements whose names can be written are readable. -/
theorem readable_of_normal {requirement : Requirement} (hnormal : requirement.Normal)
    (hwrites : ∀ atom ∈ requirement.atoms, symbols.Writes atom) :
    Readable symbols game requirement := by
  induction hnormal with
  | const value => exact readable_const value
  | hasItem item count =>
      rw [atoms, List.forall_mem_singleton] at hwrites
      exact readable_hasItem hwrites
  | hasEvent event =>
      rw [atoms, List.forall_mem_singleton] at hwrites
      exact readable_hasEvent hwrites
  | setting id =>
      rw [atoms, List.forall_mem_singleton] at hwrites
      exact readable_setting hwrites
  | not hoperand hshape ih =>
      rw [atoms] at hwrites
      exact readable_not (.not hoperand hshape) (ih hwrites)
  | @and operands hlength hoperands hshapes ih =>
      rw [atoms] at hwrites
      have hreadable : ∀ operand ∈ operands, Readable symbols game operand := fun operand hmem =>
        ih operand hmem fun atom hatom => hwrites atom (mem_atomsOfAll.mpr ⟨operand, hmem, hatom⟩)
      refine readable_of_series .and .all ?_
        (fun hseries => .disjunction (.last (.conjunction hseries))) ?_
        (fun formulas => by rw [Formula.mentions]) hlength hreadable
      · rw [describe]
        rfl
      · intro formulas hcompiles
        rw [Formula.compile, hcompiles, makeAnd_of_normal (.and hlength hoperands hshapes)]
  | @or operands hlength hoperands hshapes ih =>
      rw [atoms] at hwrites
      have hreadable : ∀ operand ∈ operands, Readable symbols game operand := fun operand hmem =>
        ih operand hmem fun atom hatom => hwrites atom (mem_atomsOfAll.mpr ⟨operand, hmem, hatom⟩)
      refine readable_of_series .or .any ?_ (fun hseries => .disjunction hseries) ?_
        (fun formulas => by rw [Formula.mentions]) hlength hreadable
      · rw [describe]
        rfl
      · intro formulas hcompiles
        rw [Formula.compile, hcompiles, makeOr_of_normal (.or hlength hoperands hshapes)]
  | @atLeast count operands hleast hmost hoperands ih =>
      rw [atoms, List.forall_mem_cons] at hwrites
      have hlimit : count < Lexeme.numberLimit := by
        rcases hwrites.1 with ⟨term, hlegible, -, hatom⟩
        cases term with
        | quorum least =>
            cases hatom
            exact hlegible
        | _ => cases hatom
      exact readable_atLeast (.atLeast hleast hmost hoperands) hlimit fun operand hmem =>
        ih operand hmem fun atom hatom =>
          hwrites.2 atom (mem_atomsOfAll.mpr ⟨operand, hmem, hatom⟩)

/-! ## Reading back -/

/-- What has been read is normal, and its names are known and can be written. -/
theorem writes_of_parse {game : Game} {macros : MacroTable} {symbols later : Symbols}
    {text : String} {requirement : Requirement}
    (hparse : Requirement.parse game macros symbols text = (.ok requirement, later)) :
    requirement.Normal ∧ ∀ atom ∈ requirement.atoms, later.Writes atom := by
  rcases (parse_eq_ok_iff (Grammar.describes_ofMacros game macros maxMacroDepth)).mp hparse with
    ⟨formula, hspells, rfl, rfl⟩
  refine ⟨formula.normal_compile _, fun atom hatom => ?_⟩
  rcases formula.exists_term_of_mem_atoms hatom with ⟨term, hterm, hnumber⟩
  exact ⟨term, Grammar.legible_of_spells hspells term hterm,
    fun _ hentry => Formula.knows_of_mem_terms symbols hterm hentry, hnumber⟩

/-- The description of what has been read is read, without macros and by either game, as
the same requirement, and it mentions no new name. -/
theorem parse_describe {game : Game} {macros : MacroTable} {symbols later : Symbols}
    {text : String} {requirement : Requirement}
    (hparse : Requirement.parse game macros symbols text = (.ok requirement, later))
    (other : Game) :
    Requirement.parse other .empty later (requirement.describe later) =
      (.ok requirement, later) := by
  rcases writes_of_parse hparse with ⟨hnormal, hwrites⟩
  obtain ⟨faces, formula, hshown, hderives, hcompile, hknown⟩ :
      Readable later other requirement := readable_of_normal hnormal hwrites
  rcases exists_scan_of_shown hshown with ⟨tokens, htokens, hfaces⟩
  have hspells : (Grammar.plain other).Spells (requirement.describe later) formula :=
    ⟨tokens, tokenize_eq_ok_iff.mpr htokens, hfaces ▸ hderives.disjunction_of_unary⟩
  have hmentions : later.mentionAll formula.mentions = later :=
    Symbols.mentionAll_of_knows hknown
  exact (parse_eq_ok_iff (Grammar.describes_plain other _)).mpr
    ⟨formula, hspells, hmentions.symm, hcompile.symm⟩

/-- A macro that asks for a setting with a value of digits. -/
def dawn : Macro :=
  ⟨"dawn", ["p"], "!p | setting(clock, 007)"⟩

/-- The macro is written out, and the constant operand stays. -/
theorem parse_describe_dawn :
    ∃ requirement later,
      Requirement.parse .mm ⟨[dawn]⟩ .empty
        "at_least(2, dawn(has(OOT_BOW, 2) & HOOK), true | KEY, setting(mode, &))" =
          (.ok requirement, later) ∧
      requirement.describe later =
        "at_least(2, (!(has(OOT_BOW, 2) & MM_HOOK) | setting(clock, 007)), true, " ++
          "setting(mode, &))" ∧
      Requirement.parse .oot .empty later (requirement.describe later) =
        (.ok requirement, later) := by
  obtain ⟨requirement, hparse⟩ : ∃ requirement, Requirement.parse .mm ⟨[dawn]⟩ .empty
      "at_least(2, dawn(has(OOT_BOW, 2) & HOOK), true | KEY, setting(mode, &))" =
        (.ok requirement, _) := ⟨_, rfl⟩
  refine ⟨requirement, _, hparse, ?_, parse_describe hparse .oot⟩
  cases hparse
  decide +kernel

end Requirement

end SeedLogic
