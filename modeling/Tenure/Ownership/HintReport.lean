import Tenure.Diagnostic.Report
import Tenure.Ownership.Hint

/- Hints as data and as lines of text. -/
namespace Tenure

def Hint.toJson (fs : FileSet) (mode : File.PathMode) (h : Hint) : Json :=
  .obj ([("location", h.range.toJson fs mode), ("kind", .str h.kind.text), ("label", .str h.label),
    ("binding", .str h.binding), ("mode", .str h.mode.text)] ++
    Json.strUnlessEmpty "reason" h.reason)

def Hint.line (fs : FileSet) (mode : File.PathMode) (h : Hint) : String :=
  let place := fs.location h.range mode
  let reason := if h.reason.isEmpty then "" else s!" ({h.reason})"
  s!"{place}: {h.label} {h.binding}{reason}\n"

def hintsJson (fs : FileSet) (mode : File.PathMode) (hs : List Hint) : Json :=
  .arr (hs.map (Hint.toJson fs mode))

def hintsText (fs : FileSet) (mode : File.PathMode) (hs : List Hint) : String :=
  "".intercalate (hs.map (Hint.line fs mode))

end Tenure
