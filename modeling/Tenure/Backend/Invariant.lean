import Tenure.Backend.Generate

/- What every generated unit satisfies: its segments are in order and inside the text, and every
   duplicate has a synthetic segment. -/
namespace Tenure

inductive Breach where
  | noMap
  | inverted (index start stop : Nat)
  | overlap (index start stop : Nat)
  | beyond (index stop size : Nat)
  | unmarked (name : String) (span : Range)
  deriving DecidableEq, Repr

def Breach.message : Breach → String
  | .noMap => "nil unit or source map"
  | .inverted i start stop => s!"segment {i} is inverted: {start}..{stop}"
  | .overlap i start stop =>
    s!"segment {i} overlaps its predecessor: starts at {start} before {stop}"
  | .beyond i stop size => s!"segment {i} ends beyond the text: {stop} > {size}"
  | .unmarked name span =>
    s!"duplication of {name} at {span.text} has no synthetic source map entry"

def segmentBreach (size i stop : Nat) : List Segment → Option Breach
  | [] => none
  | s :: ss =>
    if s.stop < s.start then some (.inverted i s.start s.stop)
    else if s.start < stop then some (.overlap i s.start stop)
    else if size < s.stop then some (.beyond i s.stop size)
    else segmentBreach size (i + 1) s.stop ss

def DuplicatePoint.isMarkedBy (p : DuplicatePoint) (s : Segment) : Bool :=
  s.synthetic && (p.span.contains s.origin || s.origin.contains p.span)

def pointBreach (segments : List Segment) (ps : List DuplicatePoint) : Option Breach :=
  (ps.find? fun p => !segments.any p.isMarkedBy).map fun p => .unmarked p.name p.span

def breachIn (size : Nat) (map : Option SourceMap) (a : Option Analysis) : Option Breach :=
  match map with
  | none => some .noMap
  | some m =>
    (segmentBreach size 0 0 m.segments).or
      (a.bind fun a => pointBreach m.segments (a.funcs.flatMap (·.verdict.points)))

def Generated.breach (u : Generated) (a : Option Analysis) : Option Breach :=
  breachIn u.text.utf8ByteSize u.map a

end Tenure
