import Tenure.Json.Field
import Tenure.Json.Read
import Tenure.Text.Blank
import Tenure.Text.Letter

/- Severities, kinds and the numbered codes of findings. -/
namespace Tenure

/-- Levels above `error` have no name of their own. -/
structure Severity where
  level : Nat
  deriving DecidableEq, Repr, Inhabited

namespace Severity

def info : Severity := ⟨0⟩
def warning : Severity := ⟨1⟩
def error : Severity := ⟨2⟩

def text (s : Severity) : String :=
  match s.level with
  | 0 => "INFO"
  | 1 => "WARNING"
  | 2 => "ERROR"
  | _ => "UNKNOWN"

def label (s : Severity) : String :=
  match s.level with
  | 1 => "warning"
  | 2 => "error"
  | _ => "info"

def ofLevel (level : String) : Severity :=
  let level := Text.lower (Text.trim level)
  if Text.startsWith "error" level then error
  else if level = "warning" then warning
  else info

end Severity

inductive Kind where
  | internal
  | annotationConflict
  /-- No ownership mode fits, even with duplicates. -/
  | unresolved
  | backendRejected
  /-- The toolchain said something the catalog does not know. -/
  | unrecognized
  deriving DecidableEq, Repr, Inhabited

namespace Kind

def text : Kind → String
  | .internal => "Internal"
  | .annotationConflict => "OwnershipAnnotationConflict"
  | .unresolved => "OwnershipUnresolved"
  | .backendRejected => "BackendRejected"
  | .unrecognized => "UntranslatableDiagnostic"

def isLocal : Kind → Bool
  | .annotationConflict | .unresolved => true
  | _ => false

end Kind

structure Code where
  number : Nat
  deriving DecidableEq, Repr, Inhabited

namespace Code

def range : Nat := 65536

def unknown : Code := ⟨0⟩
def annotationConflict : Code := ⟨3001⟩
def immutableAssign : Code := ⟨3002⟩
def escapingCaptureMutated : Code := ⟨3004⟩
def nonClonableDuplicate : Code := ⟨3005⟩
def unrecognized : Code := ⟨4999⟩
def loadFailed : Code := ⟨5001⟩
def malformedInput : Code := ⟨5002⟩
def writeArtifact : Code := ⟨5003⟩
def buildFailed : Code := ⟨7002⟩

def titles : List (Nat × String) := [
  (0, "Unknown error"),
  (3000, "Ownership information"),
  (3001, "Ownership annotation contradicts usage"),
  (3002, "Cannot modify an immutable binding"),
  (3003, "Ownership could not be resolved"),
  (3004, "Value captured by an escaping closure is modified later"),
  (3005, "Value must be duplicated but its type cannot be copied"),
  (4000, "Backend information"),
  (4001, "Identifier not found"),
  (4002, "Function not found"),
  (4003, "Type mismatch"),
  (4004, "Cannot modify value"),
  (4005, "Type not found"),
  (4006, "Module not found"),
  (4007, "Value used after it was given away"),
  (4008, "Conflicting access to a value"),
  (4009, "Missing field in struct literal"),
  (4010, "Match does not cover every case"),
  (4011, "Type lacks a required capability"),
  (4012, "Value does not live long enough"),
  (4013, "Wrong number of arguments"),
  (4014, "Unknown field"),
  (4015, "Unknown method"),
  (4999, "Unrecognized backend diagnostic"),
  (5001, "Failed to load file"),
  (5002, "Malformed AST input"),
  (5003, "Failed to write artifact"),
  (6001, "Invalid project manifest"),
  (7001, "Native toolchain not found"),
  (7002, "Native build failed")]

def title? (c : Code) : Option String := (titles.find? (·.1 == c.number)).map (·.2)

def id (c : Code) : String :=
  let n := c.number
  if 3000 ≤ n ∧ n < 4000 then s!"OWN{n}"
  else if 4000 ≤ n ∧ n < 5000 then s!"BCK{n}"
  else if 5000 ≤ n ∧ n < 6000 then s!"IO{n}"
  else if 6000 ≤ n ∧ n < 7000 then s!"PRJ{n}"
  else if 7000 ≤ n ∧ n < 8000 then s!"NAT{n}"
  else "E0000"

def title (c : Code) : String := c.title?.getD "Unknown error"

def text (c : Code) : String := s!"[{c.id}]: {c.title}"

/-- Reads the first run of digits, whatever stands around it. The number counts modulo the range
of codes. -/
def parse? (s : String) : Option Code :=
  let digits := (s.toList.dropWhile fun c => !Json.isDigit c).takeWhile Json.isDigit
  match Json.decimal? digits with
  | none => none
  | some n =>
    if Text.int64Bound ≤ n then none
    else
      let c : Code := ⟨n % range⟩
      if c ≠ unknown ∧ c.title?.isSome then some c else none

end Code

end Tenure
