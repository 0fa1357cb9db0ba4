import Tenure.Text.Blank
import Tenure.Text.Letter
import Tenure.Text.Quoted

/- How much a trace tells, and where and how. -/
namespace Tenure.Trace

/-- What an event is about, from the coarsest to the finest; other numbers have no name. -/
structure Scope where
  number : Nat
  deriving DecidableEq, Repr, Inhabited

namespace Scope

def driver : Scope := ⟨1⟩
def stage : Scope := ⟨2⟩
def unit : Scope := ⟨3⟩
def function : Scope := ⟨4⟩

def text (s : Scope) : String :=
  match s.number with
  | 1 => "driver"
  | 2 => "stage"
  | 3 => "unit"
  | 4 => "function"
  | _ => "unknown"

end Scope

structure Level where
  number : Nat
  deriving DecidableEq, Repr, Inhabited

namespace Level

def off : Level := ⟨0⟩
def error : Level := ⟨1⟩
def phase : Level := ⟨2⟩
def detail : Level := ⟨3⟩
def debug : Level := ⟨4⟩

def text (l : Level) : String :=
  match l.number with
  | 0 => "off"
  | 1 => "error"
  | 2 => "phase"
  | 3 => "detail"
  | 4 => "debug"
  | _ => "unknown"

def ofName? (s : String) : Option Level :=
  match Text.lower s with
  | "" | "off" => some off
  | "error" => some error
  | "phase" => some phase
  | "detail" => some detail
  | "debug" => some debug
  | _ => none

def isOn (l : Level) : Bool := 0 < l.number

def tells (l : Level) (s : Scope) : Bool :=
  match l.number with
  | 1 | 2 => s.number ≤ 2
  | 3 => s.number ≤ 3
  | 4 => true
  | _ => false

def unknownMessage (s : String) : String :=
  s!"invalid trace level: {Text.quoted s} (expected: off|error|phase|detail|debug)"

end Level

/-- Events are written as they come, kept for later, or both. -/
inductive Storage where
  | stream
  | ring
  | both
  deriving DecidableEq, Repr

namespace Storage

def text : Storage → String
  | .stream => "stream"
  | .ring => "ring"
  | .both => "both"

def ofName? (s : String) : Option Storage :=
  match Text.lower s with
  | "stream" => some .stream
  | "ring" => some .ring
  | "both" => some .both
  | _ => none

def streams (m : Storage) : Bool := m != .ring

def keeps (m : Storage) : Bool := m != .stream

def unknownMessage (s : String) : String :=
  s!"invalid storage mode: {Text.quoted s} (expected: stream|ring|both)"

end Storage

inductive Format where
  | text
  | ndjson
  deriving DecidableEq, Repr

namespace Format

def code : Format → Nat
  | .text => 0
  | .ndjson => 1

def ofName? (s : String) : Option Format :=
  match Text.lower s with
  | "" | "text" => some .text
  | "ndjson" | "json" => some .ndjson
  | _ => none

/-- The name of the output file may ask for the other format. -/
def forPath (f : Format) (path : String) : Format :=
  if Text.endsWith ".ndjson" path then .ndjson else f

def unknownMessage (s : String) : String :=
  s!"invalid trace format: {Text.quoted s} (expected: text|ndjson)"

end Format

end Tenure.Trace
