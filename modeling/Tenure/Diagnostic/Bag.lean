import Tenure.Diagnostic.Basic

/- Collections of findings. -/
namespace Tenure

/-- Findings in the order of their arrival. A positive `limit` bounds their number. -/
structure Bag where
  items : List Diagnostic := []
  limit : Int := 0
  deriving Inhabited

/-- What makes two findings the same: place and code. The message does not count. -/
def Diagnostic.key (d : Diagnostic) : Code × Range := (d.code, d.primary)

/-- By place, then the graver first, then by code. -/
def Diagnostic.le (d e : Diagnostic) : Bool :=
  if d.primary ≠ e.primary then !e.primary.before d.primary
  else if d.severity ≠ e.severity then e.severity.level ≤ d.severity.level
  else d.code.number ≤ e.code.number

def firstOfEach (seen : List (Code × Range)) : List Diagnostic → List Diagnostic
  | [] => []
  | d :: ds =>
    if seen.contains d.key then firstOfEach seen ds else d :: firstOfEach (d.key :: seen) ds

namespace Bag

def isFull (b : Bag) : Bool := 0 < b.limit && b.limit ≤ b.items.length

def add (b : Bag) (d : Diagnostic) : Bag := if b.isFull then b else { b with items := b.items ++ [d] }

def addAll (b : Bag) (ds : List Diagnostic) : Bag := ds.foldl add b

def hasErrors (b : Bag) : Bool := b.items.any (·.isError)

def hasLocalErrors (b : Bag) : Bool := b.items.any fun d => d.isError && d.kind.isLocal

def merge (b other : Bag) : Bag :=
  let items := b.items ++ other.items
  { items, limit := if 0 < b.limit then max b.limit items.length else b.limit }

def sort (b : Bag) : Bag := { b with items := b.items.mergeSort Diagnostic.le }

def dedup (b : Bag) : Bag := { b with items := firstOfEach [] b.items }

end Bag

structure DedupReporter where
  seen : List (Code × Range) := []

def DedupReporter.report (r : DedupReporter) (b : Bag) (d : Diagnostic) : DedupReporter × Bag :=
  if r.seen.contains d.key then (r, b) else ({ seen := d.key :: r.seen }, b.add d)

end Tenure
