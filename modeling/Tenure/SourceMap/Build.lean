import Tenure.SourceMap.Basic

/- From entries to segments. Where entries nest, the innermost one owns the bytes, and the one around
   it owns the rest; of equal ranges the entry that was added first is the innermost. -/
namespace Tenure

namespace SourceMap

def outerFirst (d e : Entry) : Bool := if d.start = e.start then e.stop ≤ d.stop else d.start < e.start

def ordered (entries : List Entry) : List Entry :=
  ((entries.filter fun e => e.start != e.stop).reverse).mergeSort outerFirst

/-- An entry whose end is still to come, with what it inherits from the entries around it. -/
structure Pending where
  stop : Nat
  origin : Range
  anchor : Range
  stmt : Range
  synthetic : Bool
  deriving DecidableEq, Repr, Inhabited

/-- A sweep over the entries. Segments are held last first, pending entries innermost first, and all
bytes before `place` have an owner. -/
structure Sweep where
  segments : List Segment := []
  pending : List Pending := []
  place : Nat := 0

/-- Two touching segments of one owner are one. -/
def extends_ (s : Segment) (p : Pending) (start : Nat) : Bool :=
  s.stop == start && s.origin == p.origin && s.anchor == p.anchor && s.synthetic == p.synthetic &&
    s.stmt == p.stmt

def emit (segments : List Segment) (p : Pending) (start stop : Nat) : List Segment :=
  if stop ≤ start then segments
  else
    let fresh : Segment :=
      { start, stop, origin := p.origin, anchor := p.anchor, stmt := p.stmt, synthetic := p.synthetic }
    match segments with
    | [] => [fresh]
    | last :: before =>
      if extends_ last p start then { last with stop } :: before else fresh :: last :: before

def close (done : Pending → Bool) (segments : List Segment) (place : Nat) : List Pending → Sweep
  | [] => { segments, pending := [], place }
  | p :: ps =>
    if done p then close done (emit segments p place p.stop) (max place p.stop) ps
    else { segments, pending := p :: ps, place }

def inherit (e : Entry) : Option Pending → Pending
  | none =>
    let anchor := if e.origin.isZero then Range.zero else e.origin
    { stop := e.stop, origin := e.origin, anchor := if anchor.isZero then e.stmt else anchor
      stmt := e.stmt, synthetic := e.synthetic }
  | some parent =>
    let stmt := if e.stmt.isZero then parent.stmt else e.stmt
    let anchor := if e.origin.isZero then parent.anchor else e.origin
    { stop := min e.stop parent.stop, origin := e.origin
      anchor := if anchor.isZero then stmt else anchor
      stmt, synthetic := e.synthetic }

def step (s : Sweep) (e : Entry) : Sweep :=
  let s := close (fun p => p.stop ≤ e.start) s.segments s.place s.pending
  let segments := match s.pending with
    | [] => s.segments
    | parent :: _ => emit s.segments parent s.place e.start
  { segments, pending := inherit e s.pending.head? :: s.pending, place := max s.place e.start }

def sweep (entries : List Entry) : Sweep :=
  let s := (ordered entries).foldl step {}
  close (fun _ => true) s.segments s.place s.pending

def flatten (entries : List Entry) : List Segment := (sweep entries).segments.reverse

def build (module generated : String) (entries : List Entry) : SourceMap :=
  { module, generated, segments := flatten entries }

end SourceMap

end Tenure
