/-!
# Quoted text

A text between two quote characters, in which the quote character itself is written twice.
-/

namespace RecordStore

/-- The text with every quote character written twice. -/
def doubleQuotes (quote : Char) : List Char → List Char
  | [] => []
  | c :: rest =>
    if c = quote then c :: c :: doubleQuotes quote rest else c :: doubleQuotes quote rest

def quoted (quote : Char) (text : List Char) : List Char :=
  quote :: (doubleQuotes quote text ++ [quote])

def quotedName (name : String) : List Char := quoted '"' name.toList

def quotedText (text : String) : List Char := quoted '\'' text.toList

end RecordStore
