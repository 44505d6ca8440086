import SeedLogic.Json.Numeral
import SeedLogic.Json.Quotation

/-!
# Reading JSON

A reader takes characters from the front of a list and hands back the others.
Where the characters stop being JSON, the reading ends with what there is of the
value, and nothing is handed back.
-/

namespace SeedLogic.Json

/-- The white space of JSON. -/
def isSpace (char : Char) : Bool :=
  char == ' ' || char == '\n' || char == '\t' || char == '\r'

/-- What is left behind white space. -/
def skipSpace (chars : List Char) : List Char :=
  chars.dropWhile isSpace

/-- The outcome of reading a value: what is read, and what is left behind it. -/
abbrev Reading :=
  Json × List Char

/-- Nothing can be read. -/
def unreadable : Reading :=
  (.flawed .null .broken, [])

/-! ## Scalars -/

/-- The string behind an opening quotation mark. -/
def readString (chars : List Char) : Reading :=
  match stringUnits? chars with
  | some (units, rest) =>
      match textOfUnits? units with
      | some text => (.string text, rest)
      | none => (.flawed .null .meaningless, rest)
  | none => unreadable

/-- The number at the front. -/
def readNumber (chars : List Char) : Reading :=
  match Numeral.read? chars with
  | some (number, rest) => (number.toJson (chars.take (chars.length - rest.length)), rest)
  | none => unreadable

/-- The value of a keyword, whose first character is already read. -/
def readKeyword (tail : String) (json : Json) (chars : List Char) : Reading :=
  if tail.toList.isPrefixOf chars then (json, chars.drop tail.length) else unreadable

/-! ## Arrays and objects -/

/-- How an array or object ends: behind its closing bracket, or with a flaw. -/
inductive Ending where
  | closed (rest : List Char)
  | broken (flaw : Flaw)

/-- An array of which the elements and the end are known. -/
def arrayOf (elements : List Json) : Ending → Reading
  | .closed rest => (.array elements, rest)
  | .broken flaw => (.flawed (.array elements) flaw, [])

/-- The members in front of the first one whose key is no text. -/
def keyedMembers : List (Option String × Json) → List (String × Json)
  | [] => []
  | (none, _) :: _ => []
  | (some key, value) :: members => (key, value) :: keyedMembers members

/-- An object of which the members and the end are known. -/
def objectOf (members : List (Option String × Json)) (ending : Ending) : Reading :=
  let keyed := keyedMembers members
  let isKeyed := members.all fun member => member.1.isSome
  match ending with
  | .closed rest =>
      (if isKeyed then .object keyed else .flawed (.object keyed) .meaninglessKey, rest)
  | .broken flaw => (.flawed (.object keyed) (if isKeyed then flaw else .brokenKey), [])

/-- The elements of an array that is not empty, behind its opening bracket or a
comma, and its end.  `fuel` bounds the number of elements. -/
def arrayBody (value : List Char → Reading) :
    (fuel : Nat) → List Char → List Json × Ending
  | 0, _ => ([], .broken .broken)
  | fuel + 1, chars =>
      match skipSpace chars with
      | [] => ([], .broken .broken)
      | ']' :: _ => ([], .broken .broken)
      | first :: behind =>
          let (element, rest) := value (first :: behind)
          if element.isBroken then ([element], .broken .broken)
          else
            match skipSpace rest with
            | ',' :: rest =>
                let (elements, ending) := arrayBody value fuel rest
                (element :: elements, ending)
            | ']' :: rest => ([element], .closed rest)
            | _ => ([element], .broken .broken)

/-- The key at the front, if it is a text, and what is left behind it. -/
def readKey? (chars : List Char) : Option (Option String × List Char) :=
  match skipSpace chars with
  | '"' :: chars => (stringUnits? chars).map fun outcome => (textOfUnits? outcome.1, outcome.2)
  | _ => none

/-- The members of an object that is not empty, behind its opening brace or a comma,
and its end.  `fuel` bounds the number of members. -/
def objectBody (value : List Char → Reading) :
    (fuel : Nat) → List Char → List (Option String × Json) × Ending
  | 0, _ => ([], .broken .brokenKey)
  | fuel + 1, chars =>
      match readKey? chars with
      | none => ([], .broken .brokenKey)
      | some (key?, rest) =>
          match skipSpace rest with
          | ':' :: rest =>
              let (element, rest) := value rest
              if element.isBroken then ([(key?, element)], .broken .broken)
              else
                match skipSpace rest with
                | ',' :: rest =>
                    let (members, ending) := objectBody value fuel rest
                    ((key?, element) :: members, ending)
                | '}' :: rest => ([(key?, element)], .closed rest)
                | _ => ([(key?, element)], .broken .brokenKey)
          | _ => ([], .broken (if key?.isSome then .broken else .brokenKey))

/-! ## Values -/

/-- How deep arrays and objects nest that have a value. -/
def maxNesting : Nat :=
  127

/-- A value that begins with the character `first`, of which `rest` is behind.  `fuel`
bounds the length of an array or object. -/
def valueFrom (value : List Char → Reading) (fuel : Nat) (first : Char) (rest : List Char) :
    Reading :=
  match first with
  | '"' => readString rest
  | '[' =>
      match skipSpace rest with
      | ']' :: rest => (.array [], rest)
      | _ =>
          let (elements, ending) := arrayBody value fuel rest
          arrayOf elements ending
  | '{' =>
      match skipSpace rest with
      | '}' :: rest => (.object [], rest)
      | _ =>
          let (members, ending) := objectBody value fuel rest
          objectOf members ending
  | 'n' => readKeyword "ull" .null rest
  | 't' => readKeyword "rue" (.bool true) rest
  | 'f' => readKeyword "alse" (.bool false) rest
  | first => readNumber (first :: rest)

/-- A value that lies `level` arrays and objects deep. -/
def limited (level : Nat) (json : Json) : Json :=
  if json.isContainer && maxNesting ≤ level then
    .flawed .null (if json.isBroken then .broken else .meaningless)
  else json

/-- The value at the front, which lies `level` arrays and objects deep.  `fuel` bounds
how deep others nest in it, and how many there are side by side; as many as there are
characters will do. -/
def value : (fuel : Nat) → (level : Nat) → List Char → Reading
  | 0, _, _ => unreadable
  | fuel + 1, level, chars =>
      match skipSpace chars with
      | [] => unreadable
      | first :: rest =>
          let (json, rest) := valueFrom (value fuel (level + 1)) fuel first rest
          (limited level json, rest)

/-- The value at the front of a text, and what is left behind it. -/
def firstOfText (text : String) : Reading :=
  value (text.length + 1) 0 text.toList

/-- The value that a text is, if it does not break off. -/
def ofText? (text : String) : Option Json :=
  let (json, rest) := firstOfText text
  if !json.isBroken && skipSpace rest = [] then some json else none

end SeedLogic.Json
