import Tenure.Text.Blank
import Tenure.Text.Style

/- The release of the compiler that is running. -/
namespace Tenure

structure Release where
  version : String := "0.1.0-dev"
  commit : String := ""
  date : String := ""
  deriving DecidableEq, Repr

namespace Release

/-- Tells releases apart: units compiled by one are never taken over by another. -/
def fingerprint (r : Release) : String :=
  if r.commit.isEmpty then r.version else s!"{r.version}+{r.commit}"

def painted (r : Release) (color : Bool) : String :=
  let (core, suffix) := match Text.cutFirst "-" r.version with
    | some (core, rest) => (core, "-" ++ rest)
    | none => (r.version, "")
  match Text.splitOn "." core with
  | major :: minor :: patch :: rest =>
    Text.Style.yellow.paint color major ++ "." ++ Text.Style.green.paint color minor ++ "." ++
      Text.Style.blue.paint color (".".intercalate (patch :: rest)) ++ suffix
  | _ => r.version

end Release

end Tenure
