import TokenForest.Text.Characters

/-!
# Shapes of lexemes

The sets of lexemes that a reading admits, as data with a membership test on the whole lexeme.
-/

namespace TokenForest

/-- A set of lexemes: identifiers, a finite list, or literals. -/
inductive LexemeShape where
  | identifier
  | oneOf (lexemes : List String)
  | literal
  deriving DecidableEq, Repr

namespace LexemeShape

/-- An ASCII letter or an underscore. -/
def isNameStart (c : Char) : Bool := c.isAlpha || c = '_'

/-- An ASCII letter, an ASCII digit or an underscore. -/
def isNameChar (c : Char) : Bool := c.isAlphanum || c = '_'

/-- A name: a letter or an underscore, then letters, digits and underscores. -/
def isName : List Char → Bool
  | [] => false
  | c :: rest => isNameStart c && rest.all isNameChar

/-- One or more decimal digits of any script. -/
def isDigits (cs : List Char) : Bool := !cs.isEmpty && cs.all Text.isDecimalDigit

/-- Digits, perhaps with a point and digits after them. -/
def isNumber (cs : List Char) : Bool :=
  let whole := cs.takeWhile Text.isDecimalDigit
  match cs.dropWhile Text.isDecimalDigit with
  | [] => isDigits whole
  | c :: fraction => isDigits whole && c = '.' && isDigits fraction

/-- A text between two quotes of one kind that does not hold this quote. -/
def isQuotedBy (quote : Char) (cs : List Char) : Bool :=
  match cs with
  | [] => false
  | c :: rest => c = quote && rest.getLast? = some quote && !rest.dropLast.contains quote

/-- The bare words that are literals. -/
def literalWords : List String := ["true", "false", "null"]

/-- The lexeme as a whole belongs to the set. -/
def fits (shape : LexemeShape) (lexeme : String) : Bool :=
  match shape with
  | identifier => isName lexeme.toList
  | oneOf lexemes => lexemes.contains lexeme
  | literal =>
    isNumber lexeme.toList || isQuotedBy '"' lexeme.toList || isQuotedBy '\'' lexeme.toList
      || literalWords.contains lexeme

end LexemeShape

end TokenForest
