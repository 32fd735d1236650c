/-!
# Identifiers

The names that tables, columns and path segments may have: an ASCII letter or an underscore, then
ASCII letters, digits and underscores.
-/

namespace RecordStore

def isIdentifierStart (c : Char) : Bool := c.isAlpha || c = '_'

def isIdentifierRest (c : Char) : Bool := c.isAlphanum || c = '_'

def isIdentifierChars : List Char → Bool
  | [] => false
  | c :: rest => isIdentifierStart c && rest.all isIdentifierRest

def isIdentifier (text : String) : Bool := isIdentifierChars text.toList

end RecordStore
