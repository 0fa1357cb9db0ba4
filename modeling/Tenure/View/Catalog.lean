import Tenure.Catalog.Match
import Tenure.View.Access

/- Catalog entries and matches as data. -/
namespace Tenure.View

def showTexts (ms : List (String × String)) : Json := .obj (ms.map fun (k, v) => (k, .str v))

def showEntry (e : Catalog.Entry) : Json := .obj [
  ("id", .str e.id), ("code", .str e.code.id), ("category", .str e.category),
  ("title", .str e.title), ("backend_codes", Json.strs e.backendCodes),
  ("patterns", Json.strs e.patterns), ("label_patterns", Json.strs e.labelPatterns),
  ("message", .str e.message), ("suggestions", Json.strs e.suggestions),
  ("defaults", showTexts e.defaults), ("explanation", .str e.explanation),
  ("examples", .arr (e.examples.map fun x => Json.strs [x.bad, x.good]))]

def showMatch (m : CatalogMatch) : Json := .obj [
  ("entry", .str m.entry.id), ("code", .str m.entry.code.id),
  ("category", .str m.entry.category), ("fields", showTexts m.captures),
  ("message", .str m.message), ("suggestions", Json.strs m.suggestions)]

end Tenure.View
