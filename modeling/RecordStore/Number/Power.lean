/-!
# Powers

The powers that the binary and the decimal form of a number count in.
-/

namespace RecordStore

def twoTo (n : Nat) : Nat := Nat.pow 2 n

def tenTo (n : Nat) : Nat := Nat.pow 10 n

end RecordStore
