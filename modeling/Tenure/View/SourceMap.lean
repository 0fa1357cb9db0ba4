import Tenure.SourceMap.Lookup
import Tenure.View.Source

/- Source maps as data. -/
namespace Tenure.View

def showSegment (s : Segment) : Json := .arr [
  .nat s.start, .nat s.stop, showRange s.origin, showRange s.anchor, showRange s.stmt, .bool s.synthetic]

def showMap (m : SourceMap) : Json := .obj [
  ("module", .str m.module), ("generated", .str m.generated),
  ("segments", .arr (m.segments.map showSegment)), ("synthetic", .nat m.synthetic.length)]

def showLookup : Option Resolved → Json
  | none => .null
  | some r => .obj [("range", showRange r.range), ("stmt", showRange r.stmt),
      ("approximate", .bool r.approximate), ("synthetic", .bool r.synthetic)]

def readEntry (j : Json) : Entry :=
  { start := nat j "start", stop := nat j "end", origin := readRange (field j "original")
    stmt := readRange (field j "stmt"), synthetic := bool j "synthetic" }

def readEntries (j : Json) : List Entry := (list j "entries").map fun e => (readEntry e).normal

end Tenure.View
