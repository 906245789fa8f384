/-!
Powers of two and of ten: the scales of binary and of decimal numbers.
-/

set_option autoImplicit false

namespace PathQuery

def twoTo (n : Nat) : Nat :=
  Nat.pow 2 n

def tenTo (n : Nat) : Nat :=
  Nat.pow 10 n

end PathQuery
