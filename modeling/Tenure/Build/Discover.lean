import Tenure.Storage
import Tenure.Toolchain.Basic

/- The documents that a build is about. -/
namespace Tenure.Build

inductive Fault where
  | missingInputs
  | missingOutDir
  | noInputs
  | notDocument (root : String)
  | unreachable (root : String) (why : String)
  | canceled
  | write (url : String) (why : String)
  | tool (f : ToolFault)

def documentEnding : String := ".kast.json"

def Fault.message : Fault → String
  | .missingInputs => "missing inputs"
  | .missingOutDir => "missing output directory"
  | .noInputs => s!"no {documentEnding} inputs found"
  | .notDocument root => s!"input {root}: not a {documentEnding} document"
  | .unreachable root why => s!"input {root}: {why}"
  | .canceled => "context canceled"
  | .write url why => s!"write {url}: {why}"
  | .tool f => f.message

def isDocument (name : String) : Bool := Text.endsWith documentEnding name

def isPassedOver (dir : String) : Bool := dir == "target" || Text.startsWith "." dir

def documentsAt (s : Storage) (root : String) : Except Fault (List String) :=
  let url := Storage.canonical root
  match s.look root with
  | .error c => .error (.unreachable root s!"{url}: {c.text}")
  | .ok (.file _) => if isDocument root then .ok [url] else .error (.notDocument root)
  | .ok .dir =>
    .ok (((s.filesBelow root isPassedOver).filter isDocument).map (Locator.join url))

def discover (s : Storage) (roots : List String) : Except Fault (List String) := do
  let found ← roots.mapM (documentsAt s)
  let urls := found.flatten.eraseDups
  if urls.isEmpty then throw .noInputs
  return urls.mergeSort fun a b => a ≤ b

end Tenure.Build
