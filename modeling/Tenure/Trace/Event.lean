import Tenure.Json.Write
import Tenure.Text.Decimal
import Tenure.Trace.Level

/- Events of a trace, and the lines that tell them. -/
namespace Tenure.Trace

structure Kind where
  number : Nat
  deriving DecidableEq, Repr, Inhabited

namespace Kind

def start : Kind := ⟨1⟩
def stop : Kind := ⟨2⟩
def point : Kind := ⟨3⟩
def heartbeat : Kind := ⟨4⟩

def text (k : Kind) : String :=
  match k.number with
  | 1 => "begin"
  | 2 => "end"
  | 3 => "point"
  | 4 => "heartbeat"
  | _ => "unknown"

def mark (k : Kind) : String :=
  match k.number with
  | 1 => "→ "
  | 2 => "← "
  | 3 => "• "
  | 4 => "♡ "
  | _ => ""

end Kind

structure Event where
  /-- Microseconds since the start of 1970. -/
  micros : Int := 0
  seq : Nat
  kind : Kind
  scope : Scope
  span : Nat := 0
  parent : Nat := 0
  depth : Int := 0
  name : String
  detail : String := ""
  extra : List (String × String) := []
  deriving Repr, Inhabited

/-- Heartbeats are told at every level. -/
def Level.passes (l : Level) (e : Event) : Bool := l.tells e.scope || e.kind == .heartbeat

def dateOf (days : Int) : Int × Int × Int :=
  -- Years start in March here, so that the extra day of a leap year is the last of its year.
  let z := days + 719468
  let era := z.fdiv 146097
  let doe := z - era * 146097
  let yoe := (doe - doe / 1460 + doe / 36524 - doe / 146096) / 365
  let doy := doe - (365 * yoe + yoe / 4 - yoe / 100)
  let mp := (5 * doy + 2) / 153
  let month := if mp < 10 then mp + 3 else mp - 9
  let year := yoe + era * 400 + (if month ≤ 2 then 1 else 0)
  (year, month, doy - (153 * mp + 2) / 5 + 1)

def two (n : Int) : String := Text.zeroPadded 2 n.toNat

def timestamp (micros : Int) : String :=
  let seconds := micros.fdiv 1000000
  let days := seconds.fdiv 86400
  let rest := seconds - days * 86400
  let (y, m, d) := dateOf days
  let year := if y < 0 then "-" ++ Text.zeroPadded 4 y.natAbs else Text.zeroPadded 4 y.natAbs
  s!"{year}-{two m}-{two d}T{two (rest / 3600)}:{two (rest / 60 % 60)}:{two (rest % 60)}." ++
    Text.zeroPadded 6 (micros - seconds * 1000000).toNat ++ "Z"

namespace Event

def sortedExtra (e : Event) : List (String × String) := e.extra.mergeSort fun a b => a.1 ≤ b.1

def extraText (e : Event) : String :=
  if e.extra.isEmpty then ""
  else " \x7b" ++ ", ".intercalate (e.sortedExtra.map fun (k, v) => k ++ "=" ++ v) ++ "\x7d"

def plainLine (e : Event) : String :=
  s!"[{Text.padLeft 6 (toString e.seq)}] " ++ Text.indent (2 * e.depth.toNat) ++ e.kind.mark ++
    e.name ++ (if e.detail.isEmpty then "" else s!" ({e.detail})") ++ e.extraText ++ "\n"

def json (e : Event) : Json :=
  .obj ([("time", .str (timestamp e.micros)), ("seq", .nat e.seq), ("kind", .str e.kind.text),
    ("scope", .str e.scope.text), ("span_id", .nat e.span)] ++
    (if e.parent = 0 then [] else [("parent_id", Json.nat e.parent)]) ++
    [("name", .str e.name)] ++ Json.strUnlessEmpty "detail" e.detail ++
    (if e.extra.isEmpty then []
      else [("extra", Json.obj (e.sortedExtra.map fun (k, v) => (k, .str v)))]))

/-- The line that tells an event; lines cannot be indented to the left. -/
def line? (e : Event) : Format → Option String
  | .text => if e.depth < 0 then none else some e.plainLine
  | .ndjson => some (e.json.compact ++ "\n")

def line (e : Event) (f : Format) : String := (e.line? f).getD ""

end Event

def durationText (ms : Nat) : String :=
  if ms = 0 then "0s"
  else if ms < 1000 then s!"{ms}ms"
  else
    let fraction := Text.trimTailChars (· == '0') (Text.zeroPadded 3 (ms % 1000))
    let seconds := s!"{ms / 1000 % 60}" ++ (if fraction.isEmpty then "" else "." ++ fraction) ++ "s"
    let minutes := ms / 60000
    if minutes = 0 then seconds
    else if minutes < 60 then s!"{minutes}m{seconds}"
    else s!"{minutes / 60}h{minutes % 60}m{seconds}"

/-- The sign of life of work that takes long: the `n`-th, some time after the start. -/
def heartbeat (name : String) (n ms seq : Nat) : Event :=
  { seq, kind := .heartbeat, scope := .driver, name, detail := s!"#{n} after {durationText ms}" }

def beats (l : Level) (interval : Int) : Bool := l.isOn && 0 < interval

end Tenure.Trace
