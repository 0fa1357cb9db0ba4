import Tenure.Disk
import Tenure.Project.Manifest

/- Finding the manifest of a directory: in it or in the nearest directory above. -/
namespace Tenure.Manifest

def upwards (dir : String) : List String :=
  let es := Path.elements (Path.clean dir)
  (List.range (es.length + 1)).reverse.map fun i => "/" ++ "/".intercalate (es.take i)

def findIn (d : Disk) : List String → Except Fault (Option String)
  | [] => .ok none
  | dir :: dirs =>
    let path := Path.join dir fileName
    match d.look path with
    | .ok _ => .ok (some path)
    | .error .notFound => findIn d dirs
    | .error c => .error (.lost path c.text)

def find (d : Disk) (cwd start : String) : Except Fault (Option String) :=
  findIn d (upwards (Path.absolute cwd (if start.isEmpty then "." else start)))

def load (d : Disk) (cwd start : String) : Except Fault (Option Manifest) := do
  match ← find d cwd start with
  | none => return none
  | some path =>
    match d.readFile path with
    | .error _ => throw (.unreadable path)
    | .ok bs =>
      if !Bytes.isText bs then throw (.unreadable path)
      let config ← decode path (Bytes.toText bs)
      return some { path, root := Path.dir path, config }

end Tenure.Manifest
