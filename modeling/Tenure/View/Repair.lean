import Tenure.Repair.Apply
import Tenure.View.Access

/- Applied fixes as data. -/
namespace Tenure.View

def showApplied (a : Repair.Applied) : Json := .obj [
  ("id", .str a.candidate.id), ("title", .str a.candidate.fix.title),
  ("code", .str a.candidate.finding.code.id), ("message", .str a.candidate.finding.message),
  ("path", .str a.candidate.path), ("edits", .nat a.edits)]

def showChange (c : Repair.Change) : Json := .obj [
  ("path", .str c.path), ("url", .str c.url), ("edits", .nat c.edits),
  ("content", showBytes c.content)]

end Tenure.View
