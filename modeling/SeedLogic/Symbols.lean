import SeedLogic.NameTable

/-!
# Symbols

Requirements speak of items, events and settings by name.  `Symbols` numbers the
names met so far, and a `Mention` is one occurrence of a name in a text.
-/

namespace SeedLogic

/-- A setting that a requirement reads: a switch, or an option with the value it
is compared to. -/
structure SettingKey where
  name : String
  value? : Option String
  deriving DecidableEq, Repr

/-- One occurrence of a name in a requirement. -/
inductive Mention where
  | item (name : String)
  | event (name : String)
  | setting (key : SettingKey)
  deriving DecidableEq, Repr

/-- The items, events and settings that requirements mention, numbered. -/
structure Symbols where
  items : NameTable String
  events : NameTable String
  settings : NameTable SettingKey

namespace Symbols

/-- No symbols yet. -/
def empty : Symbols :=
  ⟨.empty, .empty, .empty⟩

instance : Inhabited Symbols :=
  ⟨empty⟩

/-- Number the name of a mention, unless it has a number. -/
def mention (symbols : Symbols) : Mention → Symbols
  | .item name => { symbols with items := symbols.items.add name }
  | .event name => { symbols with events := symbols.events.add name }
  | .setting key => { symbols with settings := symbols.settings.add key }

/-- Number the names of several mentions in order. -/
def mentionAll (symbols : Symbols) (mentions : List Mention) : Symbols :=
  mentions.foldl mention symbols

@[simp]
theorem mentionAll_nil (symbols : Symbols) : symbols.mentionAll [] = symbols :=
  rfl

@[simp]
theorem mentionAll_cons (symbols : Symbols) (first : Mention) (rest : List Mention) :
    symbols.mentionAll (first :: rest) = (symbols.mention first).mentionAll rest :=
  rfl

@[simp]
theorem mentionAll_append (symbols : Symbols) (left right : List Mention) :
    symbols.mentionAll (left ++ right) = (symbols.mentionAll left).mentionAll right := by
  simp [mentionAll]

/-- Is the name of a mention numbered? -/
def Knows (symbols : Symbols) : Mention → Prop
  | .item name => name ∈ symbols.items.keys
  | .event name => name ∈ symbols.events.keys
  | .setting key => key ∈ symbols.settings.keys

/-- Every table of `later` extends the same table of `earlier`. -/
structure Extends (later earlier : Symbols) : Prop where
  items : earlier.items.keys <+: later.items.keys
  events : earlier.events.keys <+: later.events.keys
  settings : earlier.settings.keys <+: later.settings.keys

theorem Extends.refl (symbols : Symbols) : symbols.Extends symbols :=
  ⟨List.prefix_refl _, List.prefix_refl _, List.prefix_refl _⟩

theorem Extends.trans {first second third : Symbols} (hlate : third.Extends second)
    (hearly : second.Extends first) : third.Extends first :=
  ⟨hearly.items.trans hlate.items, hearly.events.trans hlate.events,
    hearly.settings.trans hlate.settings⟩

theorem extends_mention (symbols : Symbols) (entry : Mention) :
    (symbols.mention entry).Extends symbols := by
  cases entry with
  | item name => exact ⟨NameTable.keys_isPrefix_add _ _, List.prefix_refl _, List.prefix_refl _⟩
  | event name => exact ⟨List.prefix_refl _, NameTable.keys_isPrefix_add _ _, List.prefix_refl _⟩
  | setting key => exact ⟨List.prefix_refl _, List.prefix_refl _, NameTable.keys_isPrefix_add _ _⟩

/-- Mentions only append names. -/
theorem extends_mentionAll (symbols : Symbols) (mentions : List Mention) :
    (symbols.mentionAll mentions).Extends symbols := by
  induction mentions generalizing symbols with
  | nil => exact .refl symbols
  | cons first rest ih =>
      exact (ih (symbols.mention first)).trans (symbols.extends_mention first)

/-- A mentioned name is numbered. -/
theorem knows_mention (symbols : Symbols) (entry : Mention) :
    (symbols.mention entry).Knows entry := by
  cases entry <;> simp [mention, Knows]

theorem Extends.knows {later earlier : Symbols} (hextends : later.Extends earlier)
    {entry : Mention} (hknows : earlier.Knows entry) : later.Knows entry := by
  cases entry with
  | item name => exact hextends.items.subset hknows
  | event name => exact hextends.events.subset hknows
  | setting key => exact hextends.settings.subset hknows

/-- All mentioned names are numbered. -/
theorem knows_mentionAll (symbols : Symbols) {mentions : List Mention} {entry : Mention}
    (hmem : entry ∈ mentions) : (symbols.mentionAll mentions).Knows entry := by
  induction mentions generalizing symbols with
  | nil => cases hmem
  | cons first rest ih =>
      rcases List.mem_cons.mp hmem with rfl | hrest
      · exact ((symbols.mention entry).extends_mentionAll rest).knows
          (symbols.knows_mention entry)
      · exact ih (symbols.mention first) hrest

end Symbols

end SeedLogic
