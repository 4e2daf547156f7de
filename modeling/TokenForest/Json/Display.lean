import TokenForest.Binary64.Decimal
import TokenForest.Json
import TokenForest.Text.Quoted

/-!
# JSON values as text

The text that a value stands for when a text is wanted: a string is its own text, anything else is spelled out, with
strings inside it in quotes.
-/

namespace TokenForest

namespace Json

mutual

/-- A value spelled out. -/
def spell : Json → String
  | null => "None"
  | bool b => if b then "True" else "False"
  | int n => toString n
  | float x => x.text
  | str s => Text.quoted s
  | arr items => "[" ++ String.intercalate ", " (spellItems items) ++ "]"
  | obj members => "\x7b" ++ String.intercalate ", " (spellMembers members) ++ "\x7d"

/-- Items spelled out. -/
def spellItems : List Json → List String
  | [] => []
  | x :: rest => spell x :: spellItems rest

/-- Members spelled out. -/
def spellMembers : List (String × Json) → List String
  | [] => []
  | (key, x) :: rest => (Text.quoted key ++ ": " ++ spell x) :: spellMembers rest

end

/-- The text of a value: a string itself, anything else spelled out. -/
def display : Json → String
  | str s => s
  | x => spell x

/-- The word for the kind of a value. -/
def kindName : Json → String
  | null => "NoneType"
  | bool _ => "bool"
  | int _ => "int"
  | float _ => "float"
  | str _ => "str"
  | arr _ => "list"
  | obj _ => "dict"

end Json

end TokenForest
