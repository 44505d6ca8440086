import SeedLogic.Json

/-!
# Writing JSON

Two layouts: `render` writes a value on one line without spaces, and `pretty` puts
every element and member on a line of its own, two spaces deeper than its parent.
Both keep the order of members and escape only what JSON requires.
-/

namespace SeedLogic.Json

/-- A hexadecimal digit. -/
def hexDigit (value : Nat) : Char :=
  if value < 10 then Char.ofNat ('0'.toNat + value) else Char.ofNat ('a'.toNat + (value - 10))

/-- How a character is written inside a string. -/
def escape (char : Char) : List Char :=
  if char = '"' then ['\\', '"']
  else if char = '\\' then ['\\', '\\']
  else if char = '\x08' then ['\\', 'b']
  else if char = '\x0c' then ['\\', 'f']
  else if char = '\n' then ['\\', 'n']
  else if char = '\r' then ['\\', 'r']
  else if char = '\t' then ['\\', 't']
  else if char.toNat < 0x20 then
    ['\\', 'u', '0', '0', hexDigit (char.toNat / 0x10), hexDigit (char.toNat % 0x10)]
  else [char]

/-- A string in quotes. -/
def quote (text : String) : String :=
  String.ofList ('"' :: text.toList.flatMap escape ++ ['"'])

/-- A line break and the indentation of a level. -/
def newline (level : Nat) : String :=
  String.ofList ('\n' :: List.replicate (2 * level) ' ')

mutual

/-- A value on one line. -/
def render : Json → String
  | .null => "null"
  | .bool value => if value then "true" else "false"
  | .natural value => toString value
  | .numeral literal => literal
  | .string text => quote text
  | .array elements => "[" ++ renderElements elements ++ "]"
  | .object members => "\x7b" ++ renderMembers members ++ "\x7d"
  | .flawed begun _ => render begun

/-- Elements on one line. -/
def renderElements : List Json → String
  | [] => ""
  | [element] => render element
  | element :: next :: elements => render element ++ "," ++ renderElements (next :: elements)

/-- Members on one line. -/
def renderMembers : List (String × Json) → String
  | [] => ""
  | [(key, value)] => quote key ++ ":" ++ render value
  | (key, value) :: next :: members =>
      quote key ++ ":" ++ render value ++ "," ++ renderMembers (next :: members)

end

mutual

/-- A value on lines of its own, at a level of indentation. -/
def prettyAt (level : Nat) : Json → String
  | .array [] => "[]"
  | .array (element :: elements) =>
      "[" ++ prettyElements (level + 1) (element :: elements) ++ newline level ++ "]"
  | .object [] => "\x7b\x7d"
  | .object (member :: members) =>
      "\x7b" ++ prettyMembers (level + 1) (member :: members) ++ newline level ++ "\x7d"
  | .null => "null"
  | .bool value => if value then "true" else "false"
  | .natural value => toString value
  | .numeral literal => literal
  | .string text => quote text
  | .flawed begun _ => prettyAt level begun

/-- Elements, each on lines of its own. -/
def prettyElements (level : Nat) : List Json → String
  | [] => ""
  | [element] => newline level ++ prettyAt level element
  | element :: next :: elements =>
      newline level ++ prettyAt level element ++ "," ++ prettyElements level (next :: elements)

/-- Members, each on lines of its own. -/
def prettyMembers (level : Nat) : List (String × Json) → String
  | [] => ""
  | [(key, value)] => newline level ++ quote key ++ ": " ++ prettyAt level value
  | (key, value) :: next :: members =>
      newline level ++ quote key ++ ": " ++ prettyAt level value ++ "," ++
        prettyMembers level (next :: members)

end

/-- A document of a value, on many lines. -/
def pretty (json : Json) : String :=
  prettyAt 0 json

end SeedLogic.Json
