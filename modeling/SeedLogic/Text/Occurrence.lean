/-!
# Occurrences inside a text
-/

namespace SeedLogic.Text

/-- Does `part` occur in a text? -/
def occursIn (part : List Char) : List Char → Bool
  | [] => part.isEmpty
  | char :: chars => part.isPrefixOf (char :: chars) || occursIn part chars

end SeedLogic.Text
