import Tenure.Backend.Generate
import Tenure.Catalog.Match
import Tenure.Diagnostic.Bag
import Tenure.Source.FileSet
import Tenure.SourceMap.Lookup
import Tenure.Toolchain.Basic

/- Relaying what the toolchain says about one unit: records come in once, and are then told once, in
   source terms and at source places. -/
namespace Tenure

namespace Relay

inductive Phase where
  | idle
  | invoking
  | received
  | told
  deriving DecidableEq, Repr, Inhabited

def Phase.text : Phase → String
  | .idle => "Idle"
  | .invoking => "Invoking"
  | .received => "Received"
  | .told => "Translated"

inductive Fault where
  | outOfTurn (step : String) (phase : Phase)
  | tool (f : ToolFault)

def Fault.message : Fault → String
  | .outOfTurn step phase => s!"translate: invalid state transition: {step} from {phase.text}"
  | .tool f => f.message

end Relay

structure Relay where
  catalog : Catalog
  files : FileSet
  unit : Generated
  textFile : Nat
  home : Nat
  limit : Int := 0
  phase : Relay.Phase := .idle
  records : List RawDiagnostic := []
  told : List Diagnostic := []

namespace Relay

def homeOf (m : Option SourceMap) : Nat :=
  match m with
  | none => 0
  | some m => ((m.segments.find? fun s => !s.origin.isZero).map (·.origin.file)).getD 0

/-- Registers the unit's text, so that its lines and columns can be found. -/
def start (catalog : Catalog) (files : FileSet) (unit : Generated) (limit : Int) : Relay :=
  let (files, textFile) := files.addGenerated unit.file (Bytes.ofString unit.text)
  { catalog, files, unit, textFile, home := homeOf unit.map, limit }

def isForeign (file : String) : Bool := Path.isAbs file || Text.startsWith ".." file

/-- Where a record points to; without a usable place, the start of the source. -/
def locate (r : Relay) (d : RawDiagnostic) : Resolved :=
  let fallback : Resolved :=
    { range := Range.of r.home 1 1 1 1, stmt := Range.zero, approximate := true, synthetic := false }
  match r.unit.map with
  | none => fallback
  | some m =>
    if d.span.isZero || isForeign d.file then fallback
    else
      let s := r.files.spanOfChars r.textFile ⟨d.span.line, d.span.col⟩
        ⟨d.span.stopLine, d.span.stopCol⟩
      (m.lookup s.start s.stop).getD fallback

def unrecognizedMessage (d : RawDiagnostic) : String :=
  if d.code.isEmpty then s!"unrecognized backend diagnostic: {d.message}"
  else s!"unrecognized backend diagnostic [{d.code}]: {d.message}"

def insertedNote (place : Range) : Note :=
  ⟨place, "reported inside code the compiler inserted at this location"⟩

def tell (r : Relay) (d : RawDiagnostic) : Diagnostic :=
  let place := r.locate d
  let inserted := if place.synthetic then [insertedNote place.range] else []
  match r.catalog.match? d with
  | some m =>
    { severity := d.severity, code := m.entry.code, kind := .backendRejected
      category := m.entry.category, message := m.message, primary := place.range
      approximate := place.approximate, notes := inserted, suggestions := m.suggestions
      raw := some d }
  | none =>
    let said := (if d.label.isEmpty then [] else [d.label]) ++ d.children
    { severity := d.severity, code := .unrecognized, kind := .unrecognized
      category := "unrecognized", message := unrecognizedMessage d, primary := place.range
      approximate := place.approximate, notes := said.map (⟨place.range, ·⟩) ++ inserted
      raw := some d }

structure RecordKey where
  code : String
  message : String
  file : String
  span : RawSpan
  deriving DecidableEq

def keyOf (d : RawDiagnostic) : RecordKey := ⟨d.code, d.message, d.file, d.span⟩

structure Gathered where
  bag : Bag
  known : DedupReporter := {}
  unknown : List RecordKey := []

/-- Recognized records are the same when they have one code and one place. -/
def gather (r : Relay) (g : Gathered) (d : RawDiagnostic) : Gathered :=
  let out := r.tell d
  if out.kind ≠ .unrecognized then
    let (known, bag) := g.known.report g.bag out
    { g with bag, known }
  else if g.unknown.contains (keyOf d) then g
  else { g with bag := g.bag.add out, unknown := keyOf d :: g.unknown }

def tellAll (r : Relay) : List Diagnostic :=
  let start : Gathered := { bag := { limit := r.limit } }
  (r.records.foldl r.gather start).bag.sort.items

def receive (r : Relay) (records : List RawDiagnostic) : Except Fault Relay :=
  match r.phase with
  | .idle | .invoking => .ok { r with records, phase := .received }
  | p => .error (.outOfTurn "receive" p)

def build (r : Relay) (answer : Except ToolFault BuildOutcome) :
    Relay × Except Fault BuildOutcome :=
  match r.phase with
  | .idle => match answer with
    | .error f => (r, .error (.tool f))
    | .ok o => match receive { r with phase := .invoking } o.records with
      | .ok next => (next, .ok o)
      | .error f => (r, .error f)
  | p => (r, .error (.outOfTurn "build" p))

def recount (r : Relay) : Except Fault Relay :=
  match r.phase with
  | .received => .ok { r with told := r.tellAll, phase := .told }
  | p => .error (.outOfTurn "translate" p)

end Relay

end Tenure
