import Tenure.SourceMap.Basic

/- From a region of backend text back to the source. The answer never leaves the statement that the
   region starts in. -/
namespace Tenure

structure Resolved where
  range : Range
  stmt : Range
  /-- No single segment that the author wrote holds the region. -/
  approximate : Bool := false
  synthetic : Bool := false
  deriving DecidableEq, Repr, Inhabited

namespace SourceMap

def bisect (segments : Array Segment) (offset : Nat) : Nat → Nat → Nat → Nat
  | 0, lo, _ => lo
  | fuel + 1, lo, hi =>
    if lo < hi then
      let mid := (lo + hi) / 2
      if (segments[mid]?.getD default).stop ≤ offset then bisect segments offset fuel (mid + 1) hi
      else bisect segments offset fuel lo mid
    else lo

def search (segments : List Segment) (offset : Nat) : Nat :=
  bisect segments.toArray offset (segments.length + 1) 0 segments.length

def nearest (segments : List Segment) (i : Nat) : Option Resolved :=
  ((segments.take i).reverse.find? fun s => !s.stmt.isZero).map fun s =>
    { range := s.stmt, stmt := s.stmt, approximate := true }

/-- The source of a region that starts in `s`, with `rest` behind it. -/
def resolveIn (s : Segment) (rest : List Segment) (stop : Nat) : Resolved :=
  if !s.synthetic && stop ≤ s.stop then { range := s.origin, stmt := s.stmt }
  else
    let run := rest.takeWhile fun next => next.start < stop && next.stmt == s.stmt
    let range := run.foldl (fun r next => r.cover next.anchor) s.anchor
    { range := range.clamp s.stmt, stmt := s.stmt, approximate := true, synthetic := s.synthetic }

def lookup (m : SourceMap) (start stop : Nat) : Option Resolved :=
  let stop := max start stop
  let i := search m.segments start
  match m.segments.drop i with
  | s :: rest => if s.contains start then some (resolveIn s rest stop) else nearest m.segments i
  | [] => nearest m.segments i

end SourceMap

end Tenure
