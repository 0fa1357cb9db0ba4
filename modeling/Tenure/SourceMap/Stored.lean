import Tenure.Json.Field
import Tenure.Json.Read
import Tenure.Json.Write
import Tenure.Source.FileSet
import Tenure.SourceMap.Basic

/- Source maps on disk. Files are stored by path and numbered again when the map is read. -/
namespace Tenure

namespace SourceMap

def formatVersion : Int := 1

def quad (r : Range) : Json :=
  .arr [.nat r.start.line, .nat r.start.col, .nat r.stop.line, .nat r.stop.col]

def quadUnlessZero (key : String) (r : Range) : List (String × Json) :=
  if r.isZero then [] else [(key, quad r)]

def storedPath (fs : FileSet) (s : Segment) : String :=
  match fs.get? s.origin.file with
  | some f => f.path
  | none => ((fs.get? s.stmt.file).map (·.path)).getD ""

def segmentJson (fs : FileSet) (s : Segment) : Json :=
  .obj ([("backend_start", .nat s.start), ("backend_end", .nat s.stop),
    ("original_file", .str (storedPath fs s)),
    ("original_start", .arr [.nat s.origin.start.line, .nat s.origin.start.col]),
    ("original_end", .arr [.nat s.origin.stop.line, .nat s.origin.stop.col])] ++
    Json.trueOnly "synthetic" s.synthetic ++
    quadUnlessZero "anchor" s.anchor ++ quadUnlessZero "stmt" s.stmt)

def toJson (fs : FileSet) (m : SourceMap) : Json := .obj [
  ("version", .int formatVersion), ("module", .str m.module), ("generated", .str m.generated),
  ("entries", .arr (m.segments.map (segmentJson fs)))]

def store (fs : FileSet) (m : SourceMap) : String := (toJson fs m).indented

structure Record where
  start : Nat := 0
  stop : Nat := 0
  file : String := ""
  originStart : List Nat := [0, 0]
  originStop : List Nat := [0, 0]
  synthetic : Bool := false
  anchor : Option (List Nat) := none
  stmt : Option (List Nat) := none
  deriving Inhabited

structure RecordFile where
  version : Int := 0
  module : String := ""
  generated : String := ""
  entries : List Record := []

def zeros (n : Nat) : List Nat := List.replicate n 0

def readPair : Json.Reader (List Nat) := Json.readFixed 0 Json.read32 2

def readQuad : Json.Reader (Option (List Nat)) :=
  Json.readOpt (zeros 4) (Json.readFixed 0 Json.read32 4)

def readRecord : Json.Reader Record :=
  Json.readObj ["backend_start", "backend_end", "original_file", "original_start", "original_end",
      "synthetic", "anchor", "stmt"] fun key j r =>
    match key with
    | "backend_start" => (Json.read32 j r.start).map ({ r with start := · })
    | "backend_end" => (Json.read32 j r.stop).map ({ r with stop := · })
    | "original_file" => (Json.readStr j r.file).map ({ r with file := · })
    | "original_start" => (readPair j r.originStart).map ({ r with originStart := · })
    | "original_end" => (readPair j r.originStop).map ({ r with originStop := · })
    | "synthetic" => (Json.readBool j r.synthetic).map ({ r with synthetic := · })
    | "anchor" => (readQuad j r.anchor).map ({ r with anchor := · })
    | _ => (readQuad j r.stmt).map ({ r with stmt := · })

def readFile : Json.Reader RecordFile :=
  Json.readObj ["version", "module", "generated", "entries"] fun key j f =>
    match key with
    | "version" => (Json.readInt64 j f.version).map ({ f with version := · })
    | "module" => (Json.readStr j f.module).map ({ f with module := · })
    | "generated" => (Json.readStr j f.generated).map ({ f with generated := · })
    | _ => (Json.readList {} readRecord j f.entries).map ({ f with entries := · })

inductive Damage where
  | syntactic
  | misfit
  | version (found : Int)
  | range (index start stop : Nat)
  deriving DecidableEq, Repr

def Damage.message : Damage → String
  | .syntactic | .misfit => "decode source map"
  | .version v => s!"unsupported source map version {v}"
  | .range i start stop => s!"source map entry {i}: invalid or overlapping range {start}..{stop}"

def rangeOf (file : Nat) (pos stop : List Nat) : Range :=
  Range.of file (pos.getD 0 0) (pos.getD 1 0) (stop.getD 0 0) (stop.getD 1 0)

def unquad (file : Nat) : Option (List Nat) → Range
  | none => Range.zero
  | some q => rangeOf file q (q.drop 2)

def fileFor (fs : FileSet) (path : String) : FileSet × Nat :=
  match fs.latest path with
  | some id => (fs, id)
  | none => fs.addVirtual path []

/-- The segments of the records; the first of them has the number `i` and starts at `stop` or
behind. -/
def segmentsOf (fs : FileSet) (i stop : Nat) :
    List Record → FileSet × Except Damage (List Segment)
  | [] => (fs, .ok [])
  | r :: rs =>
    if r.stop < r.start ∨ r.start < stop then (fs, .error (.range i r.start r.stop))
    else
      let (fs, file) := fileFor fs r.file
      let s : Segment :=
        { start := r.start, stop := r.stop, origin := rangeOf file r.originStart r.originStop
          anchor := unquad file r.anchor, stmt := unquad file r.stmt, synthetic := r.synthetic }
      let (fs, rest) := segmentsOf fs (i + 1) r.stop rs
      (fs, rest.map (s :: ·))

def load (fs : FileSet) (text : String) : FileSet × Except Damage SourceMap :=
  match Json.parse? text with
  | none => (fs, .error .syntactic)
  | some j => match readFile j {} with
    | .error _ => (fs, .error .misfit)
    | .ok f =>
      if f.version ≠ formatVersion then (fs, .error (.version f.version))
      else
        let (fs, segments) := segmentsOf fs 0 0 f.entries
        (fs, segments.map fun segments => { module := f.module, generated := f.generated, segments })

end SourceMap

end Tenure
