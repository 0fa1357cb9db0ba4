import Tenure.Text.Bytes

/- A text under repair. Patches are given by offsets into the text before any of them; the working
   text has all accepted ones. -/
namespace Tenure

structure Patch where
  start : Nat
  stop : Nat
  text : Bytes
  deriving DecidableEq, Repr, Inhabited

namespace Patch

def isInsertion (p : Patch) : Bool := p.start == p.stop

/-- Regions are half open. Two insertions never overlap; an insertion overlaps a region that holds
its place, the first place of the region included. -/
def overlaps (a b : Patch) : Bool :=
  if a.isInsertion && b.isInsertion then false
  else if a.isInsertion then b.start ≤ a.start && a.start < b.stop
  else if b.isInsertion then a.start ≤ b.start && b.start < a.stop
  else a.start < b.stop && b.start < a.stop

def growth (p : Patch) : Int := (p.text.length : Int) - (p.stop - p.start : Int)

def before (p q : Patch) : Bool := p.start < q.start || (p.start == q.start && p.stop < q.stop)

def rightToLeft (p q : Patch) : Bool :=
  if p.start = q.start then q.stop ≤ p.stop else q.start < p.start

end Patch

def clash : List Patch → Bool
  | [] => false
  | p :: ps => ps.any p.overlaps || clash ps

structure Buffer where
  origin : Bytes
  working : Bytes
  accepted : List Patch := []
  edits : Nat := 0
  deriving Inhabited

namespace Buffer

def ofContent (bs : Bytes) : Buffer := { origin := bs, working := bs }

def shift (accepted : List Patch) (place : Nat) : Int :=
  (((accepted.takeWhile (·.start ≤ place)).filter (·.stop ≤ place)).map Patch.growth).foldr (· + ·) 0

def insertPatch (p : Patch) : List Patch → List Patch
  | [] => [p]
  | q :: qs => if q.before p then q :: insertPatch p qs else p :: q :: qs

def splice (b : Buffer) (p : Patch) : Option Buffer :=
  let start := (p.start : Int) + shift b.accepted p.start
  let stop := (p.stop : Int) + shift b.accepted p.stop
  if start < 0 ∨ stop < start ∨ (b.working.length : Int) < stop then none
  else some { b with
    working := b.working.take start.toNat ++ p.text ++ b.working.drop stop.toNat
    accepted := insertPatch p b.accepted }

def admits (b : Buffer) (ps : List Patch) : Bool :=
  !(b.accepted.any fun p => ps.any p.overlaps) && !clash ps

/-- Adds patches that the buffer admits. They go in from right to left, so that the places of those
to come stay valid. -/
def patch (b : Buffer) (ps : List Patch) : Option Buffer :=
  ((ps.mergeSort Patch.rightToLeft).foldlM splice b).map fun next =>
    { next with edits := b.edits + ps.length }

end Buffer

end Tenure
