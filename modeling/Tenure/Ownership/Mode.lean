import Tenure.Program.Basic

/- Ownership modes, from the weakest to the strongest. -/
namespace Tenure

inductive Mode where
  | unresolved
  | shared
  | exclusive
  | owned
  deriving DecidableEq, Repr, Inhabited

namespace Mode

def rank : Mode → Nat
  | .unresolved => 0
  | .shared => 1
  | .exclusive => 2
  | .owned => 3

def text : Mode → String
  | .unresolved => "Unresolved"
  | .shared => "BorrowedImmutable"
  | .exclusive => "BorrowedMutable"
  | .owned => "Owned"

def label : Mode → String
  | .unresolved => "?"
  | .shared => "&"
  | .exclusive => "&mut"
  | .owned => "owned"

def isBorrowed : Mode → Bool
  | .shared | .exclusive => true
  | _ => false

def join (a b : Mode) : Mode := if b.rank < a.rank then a else b

def ofMarker : Marker → Mode
  | .none => .unresolved
  | .ref => .shared
  | .mutRef => .exclusive
  | .owned => .owned

end Mode

inductive Access where
  | read
  | mutate
  | move
  | store
  deriving DecidableEq, Repr, Inhabited

namespace Access

def ofMode : Mode → Access
  | .exclusive => .mutate
  | .owned => .move
  | _ => .read

def transfers : Access → Bool
  | .move | .store => true
  | _ => false

end Access

end Tenure
