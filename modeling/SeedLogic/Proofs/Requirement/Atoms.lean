import SeedLogic.Formula

/-!
# Atoms

The atoms of a requirement are what it says by number: items with counts, events,
settings, and how many of several operands must hold.  The terms of a formula are the
same by name.  Builders add no atoms but a count, so that the atoms of a compiled formula
are the numbers of its terms (`exists_term_of_mem_atoms`).
-/

namespace SeedLogic

namespace Requirement

/-- What a requirement says at one place. -/
inductive Atom where
  | item (id count : Nat)
  | event (id : Nat)
  | setting (id : Nat)
  | quorum (count : Nat)
  deriving DecidableEq, Repr

mutual

/-- The atoms of a requirement, at any depth. -/
def atoms : Requirement → List Atom
  | .const _ => []
  | .hasItem item count => [.item item count]
  | .hasEvent event => [.event event]
  | .setting id => [.setting id]
  | .not operand => atoms operand
  | .and operands => atomsOfAll operands
  | .or operands => atomsOfAll operands
  | .atLeast count operands => .quorum count :: atomsOfAll operands

/-- The atoms of several requirements. -/
def atomsOfAll : List Requirement → List Atom
  | [] => []
  | operand :: operands => atoms operand ++ atomsOfAll operands

end

theorem mem_atomsOfAll {operands : List Requirement} {atom : Atom} :
    atom ∈ atomsOfAll operands ↔ ∃ operand ∈ operands, atom ∈ operand.atoms := by
  induction operands with
  | nil => simp [atomsOfAll]
  | cons operand operands ih => simp [atomsOfAll, ih]

/-! ## Builders -/

variable {parts : List Requirement} {atom : Atom}

theorem atoms_of_mem_andOperands {part operand : Requirement} (hmem : operand ∈ part.andOperands)
    (hatom : atom ∈ operand.atoms) : atom ∈ part.atoms := by
  cases part with
  | const value =>
      cases value with
      | true => cases hmem
      | false =>
          cases List.mem_singleton.mp hmem
          exact hatom
  | and operands =>
      rw [atoms]
      exact mem_atomsOfAll.mpr ⟨operand, hmem, hatom⟩
  | _ =>
      cases List.mem_singleton.mp hmem
      exact hatom

theorem atoms_of_mem_orOperands {part operand : Requirement} (hmem : operand ∈ part.orOperands)
    (hatom : atom ∈ operand.atoms) : atom ∈ part.atoms := by
  cases part with
  | const value =>
      cases value with
      | false => cases hmem
      | true =>
          cases List.mem_singleton.mp hmem
          exact hatom
  | or operands =>
      rw [atoms]
      exact mem_atomsOfAll.mpr ⟨operand, hmem, hatom⟩
  | _ =>
      cases List.mem_singleton.mp hmem
      exact hatom

theorem exists_of_mem_atoms_makeAnd (hatom : atom ∈ (makeAnd parts).atoms) :
    ∃ part ∈ parts, atom ∈ part.atoms := by
  have hparts : ∀ operand ∈ parts.flatMap andOperands, atom ∈ operand.atoms →
      ∃ part ∈ parts, atom ∈ part.atoms := by
    intro operand hmem hatom
    rcases List.mem_flatMap.mp hmem with ⟨part, hpart, hoperand⟩
    exact ⟨part, hpart, atoms_of_mem_andOperands hoperand hatom⟩
  unfold makeAnd at hatom
  split at hatom
  case isTrue => cases hatom
  case isFalse =>
    split at hatom
    case h_1 => cases hatom
    case h_2 single hsingle => exact hparts single (hsingle ▸ List.mem_cons_self) hatom
    case h_3 =>
      rw [atoms] at hatom
      rcases mem_atomsOfAll.mp hatom with ⟨operand, hmem, hatom⟩
      exact hparts operand hmem hatom

theorem exists_of_mem_atoms_makeOr (hatom : atom ∈ (makeOr parts).atoms) :
    ∃ part ∈ parts, atom ∈ part.atoms := by
  have hparts : ∀ operand ∈ parts.flatMap orOperands, atom ∈ operand.atoms →
      ∃ part ∈ parts, atom ∈ part.atoms := by
    intro operand hmem hatom
    rcases List.mem_flatMap.mp hmem with ⟨part, hpart, hoperand⟩
    exact ⟨part, hpart, atoms_of_mem_orOperands hoperand hatom⟩
  unfold makeOr at hatom
  split at hatom
  case isTrue => cases hatom
  case isFalse =>
    split at hatom
    case h_1 => cases hatom
    case h_2 single hsingle => exact hparts single (hsingle ▸ List.mem_cons_self) hatom
    case h_3 =>
      rw [atoms] at hatom
      rcases mem_atomsOfAll.mp hatom with ⟨operand, hmem, hatom⟩
      exact hparts operand hmem hatom

theorem mem_atoms_of_makeNot {operand : Requirement} (hatom : atom ∈ (makeNot operand).atoms) :
    atom ∈ operand.atoms := by
  cases operand with
  | const => cases hatom
  | _ => simpa only [makeNot, atoms] using hatom

theorem exists_of_mem_atoms_makeAtLeast {count : Nat}
    (hatom : atom ∈ (makeAtLeast count parts).atoms) :
    atom = .quorum count ∨ ∃ part ∈ parts, atom ∈ part.atoms := by
  unfold makeAtLeast at hatom
  split at hatom
  case isTrue => cases hatom
  case isFalse =>
    split at hatom
    case isTrue => cases hatom
    case isFalse =>
      split at hatom
      case isTrue => exact .inr (exists_of_mem_atoms_makeOr hatom)
      case isFalse =>
        split at hatom
        case isTrue => exact .inr (exists_of_mem_atoms_makeAnd hatom)
        case isFalse =>
          rw [atoms, List.mem_cons] at hatom
          exact hatom.imp_right mem_atomsOfAll.mp

end Requirement

namespace Formula

/-! ## Terms -/

/-- What a formula says at one place. -/
inductive Term where
  | item (name : String) (count : Nat)
  | event (name : String)
  | setting (key : SettingKey)
  | quorum (count : Nat)
  deriving DecidableEq, Repr

namespace Term

/-- The name of a term. -/
def mention? : Term → Option Mention
  | .item name _ => some (.item name)
  | .event name => some (.event name)
  | .setting key => some (.setting key)
  | .quorum _ => none

/-- The atom of a term, over the numbers of names. -/
def atom (symbols : Symbols) : Term → Requirement.Atom
  | .item name count => .item (symbols.items.idOf name) count
  | .event name => .event (symbols.events.idOf name)
  | .setting key => .setting (symbols.settings.idOf key)
  | .quorum count => .quorum count

end Term

mutual

/-- The terms of a formula, at any depth. -/
def terms : Formula → List Term
  | .const _ => []
  | .item name count => [.item name count]
  | .event name => [.event name]
  | .setting key => [.setting key]
  | .not operand => terms operand
  | .all operands => termsOfAll operands
  | .any operands => termsOfAll operands
  | .atLeast count operands => .quorum count :: termsOfAll operands

/-- The terms of several formulas. -/
def termsOfAll : List Formula → List Term
  | [] => []
  | operand :: operands => terms operand ++ termsOfAll operands

end

theorem mem_termsOfAll {operands : List Formula} {term : Term} :
    term ∈ termsOfAll operands ↔ ∃ operand ∈ operands, term ∈ operand.terms := by
  induction operands with
  | nil => simp [termsOfAll]
  | cons operand operands ih => simp [termsOfAll, ih]

mutual

/-- The names of a formula are those of its terms. -/
theorem mentions_eq_filterMap : ∀ formula : Formula,
    formula.mentions = formula.terms.filterMap Term.mention?
  | .const _ => by rw [mentions, terms, List.filterMap_nil]
  | .item _ _ => by simp [mentions, terms, Term.mention?]
  | .event _ => by simp [mentions, terms, Term.mention?]
  | .setting _ => by simp [mentions, terms, Term.mention?]
  | .not operand => by rw [mentions, terms, mentions_eq_filterMap operand]
  | .all operands => by rw [mentions, terms, mentionsOfAll_eq_filterMap operands]
  | .any operands => by rw [mentions, terms, mentionsOfAll_eq_filterMap operands]
  | .atLeast count operands => by
      rw [mentions, terms, mentionsOfAll_eq_filterMap operands, List.filterMap_cons_none rfl]

theorem mentionsOfAll_eq_filterMap : ∀ operands : List Formula,
    mentionsOfAll operands = (termsOfAll operands).filterMap Term.mention?
  | [] => by rw [mentionsOfAll, termsOfAll, List.filterMap_nil]
  | operand :: operands => by
      rw [mentionsOfAll, termsOfAll, List.filterMap_append, mentions_eq_filterMap operand,
        mentionsOfAll_eq_filterMap operands]

end

/-- The names of terms are numbered with those of their formula. -/
theorem knows_of_mem_terms (symbols : Symbols) {formula : Formula} {term : Term}
    (hterm : term ∈ formula.terms) {entry : Mention} (hentry : term.mention? = some entry) :
    (symbols.mentionAll formula.mentions).Knows entry := by
  apply Symbols.knows_mentionAll
  rw [mentions_eq_filterMap]
  exact List.mem_filterMap.mpr ⟨term, hterm, hentry⟩

/-! ## Compiling -/

variable {symbols : Symbols} {atom : Requirement.Atom}

mutual

/-- Every atom of a compiled formula is the number of one of its terms. -/
theorem exists_term_of_mem_atoms : ∀ formula : Formula,
    atom ∈ (formula.compile symbols).atoms → ∃ term ∈ formula.terms, atom = term.atom symbols
  | .const _, hatom => by
      rw [compile, Requirement.atoms] at hatom
      cases hatom
  | .item name count, hatom => by
      rw [compile, Requirement.atoms] at hatom
      rw [terms]
      exact ⟨_, List.mem_cons_self, List.mem_singleton.mp hatom⟩
  | .event name, hatom => by
      rw [compile, Requirement.atoms] at hatom
      rw [terms]
      exact ⟨_, List.mem_cons_self, List.mem_singleton.mp hatom⟩
  | .setting key, hatom => by
      rw [compile, Requirement.atoms] at hatom
      rw [terms]
      exact ⟨_, List.mem_cons_self, List.mem_singleton.mp hatom⟩
  | .not operand, hatom => by
      rw [compile] at hatom
      rw [terms]
      exact exists_term_of_mem_atoms operand (Requirement.mem_atoms_of_makeNot hatom)
  | .all operands, hatom => by
      rw [compile] at hatom
      rw [terms]
      rcases Requirement.exists_of_mem_atoms_makeAnd hatom with ⟨part, hpart, hatom⟩
      exact exists_term_of_mem_atomsOfAll operands part hpart hatom
  | .any operands, hatom => by
      rw [compile] at hatom
      rw [terms]
      rcases Requirement.exists_of_mem_atoms_makeOr hatom with ⟨part, hpart, hatom⟩
      exact exists_term_of_mem_atomsOfAll operands part hpart hatom
  | .atLeast count operands, hatom => by
      rw [compile] at hatom
      rw [terms]
      rcases Requirement.exists_of_mem_atoms_makeAtLeast hatom with rfl | ⟨part, hpart, hatom⟩
      · exact ⟨_, List.mem_cons_self, rfl⟩
      · rcases exists_term_of_mem_atomsOfAll operands part hpart hatom with ⟨term, hterm, hnumber⟩
        exact ⟨term, List.mem_cons_of_mem _ hterm, hnumber⟩

theorem exists_term_of_mem_atomsOfAll : ∀ operands : List Formula,
    ∀ part ∈ compileAll symbols operands, atom ∈ part.atoms →
      ∃ term ∈ termsOfAll operands, atom = term.atom symbols
  | [], part, hpart, _ => by
      rw [compileAll] at hpart
      cases hpart
  | operand :: operands, part, hpart, hatom => by
      rw [compileAll, List.mem_cons] at hpart
      rw [termsOfAll]
      rcases hpart with rfl | hpart
      · rcases exists_term_of_mem_atoms operand hatom with ⟨term, hterm, hnumber⟩
        exact ⟨term, List.mem_append_left _ hterm, hnumber⟩
      · rcases exists_term_of_mem_atomsOfAll operands part hpart hatom with ⟨term, hterm, hnumber⟩
        exact ⟨term, List.mem_append_right _ hterm, hnumber⟩

end

end Formula

end SeedLogic
