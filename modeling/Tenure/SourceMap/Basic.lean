import Tenure.Source.Position

/- Which source a piece of backend text comes from. Entries nest the way the text nests; segments are
   what is left of them when every byte has one owner. -/
namespace Tenure

/-- The bytes from `start` to `stop` come from `origin`, which stands in the statement `stmt`. A
synthetic entry is text that the author never wrote. -/
structure Entry where
  start : Nat
  stop : Nat
  origin : Range
  stmt : Range
  synthetic : Bool := false
  deriving DecidableEq, Repr, Inhabited

namespace Entry

def normal (e : Entry) : Entry := if e.stop < e.start then { e with stop := e.start } else e

/-- The entry in a text that is placed at `delta`. Offsets are words. -/
def shift (delta : Nat) (e : Entry) : Entry :=
  { e with start := wrap32 (e.start + delta), stop := wrap32 (e.stop + delta) }

end Entry

structure Segment where
  start : Nat
  stop : Nat
  origin : Range
  anchor : Range
  stmt : Range
  synthetic : Bool
  deriving DecidableEq, Repr, Inhabited

def Segment.contains (s : Segment) (offset : Nat) : Bool := s.start ≤ offset && offset < s.stop

structure SourceMap where
  module : String
  generated : String
  segments : List Segment
  deriving DecidableEq, Repr, Inhabited

def SourceMap.synthetic (m : SourceMap) : List Segment := m.segments.filter (·.synthetic)

end Tenure
