import Tenure.Text.Decimal

/- How long the phases of a run took. Times are in nanoseconds of some clock. -/
namespace Tenure

structure Timer.Phase where
  name : String
  start : Int := 0
  length : Int := 0
  note : String := ""
  deriving DecidableEq, Repr, Inhabited

structure Timer where
  phases : List Timer.Phase := []
  deriving Inhabited

namespace Timer

def begin (t : Timer) (name : String) (now : Int) : Timer × Nat :=
  ({ phases := t.phases ++ [{ name, start := now }] }, t.phases.length)

def finish (t : Timer) (i : Int) (note : String) (now : Int) : Timer :=
  if i < 0 then t
  else { phases := t.phases.modify i.toNat fun p => { p with length := now - p.start, note } }

def record (t : Timer) (name : String) (length : Int) (note : String) : Timer :=
  { phases := t.phases ++ [{ name, length, note }] }

def total (t : Timer) : Int := (t.phases.map (·.length)).foldr (· + ·) 0

def millis (places : Nat) (length : Int) : String :=
  Text.fixedSigned places (length.sign * (Text.storedWhole length.natAbs : Int)) 1000000

def row (name : String) (length : Int) : String :=
  s!"  {Text.padRight 20 name} {Text.padLeft 7 (millis 2 length)} ms"

def Phase.text (p : Phase) : String :=
  row p.name p.length ++ (if p.note.isEmpty then "" else "  // " ++ p.note) ++ "\n"

def summary (t : Timer) : String :=
  "timings:\n" ++ String.join (t.phases.map Phase.text) ++ row "total" t.total ++ "\n"

end Timer

end Tenure
