/-!
# Joining and splitting

Lists joined by a separator, and texts split at a separator.
-/

namespace RecordStore

/-- The lists in order with a separator between neighbours. -/
def joinWith {α : Type} (separator : List α) : List (List α) → List α
  | [] => []
  | [part] => part
  | part :: next :: rest => part ++ separator ++ joinWith separator (next :: rest)

/-- The parts of a text between separator characters; a text without one is a single part. -/
def splitAtEvery (separator : Char) : List Char → List (List Char)
  | [] => [[]]
  | c :: rest =>
    if c = separator then [] :: splitAtEvery separator rest
    else match splitAtEvery separator rest with
      | [] => [[c]]
      | part :: parts => (c :: part) :: parts

end RecordStore
