import Tenure.Path
import Tenure.Text.Bytes

/- A disk: directories and files by absolute path. The directories above everything on it are on it
   too. -/
namespace Tenure

inductive Disk.Node where
  | file (content : Bytes)
  | dir
  deriving DecidableEq, Repr, Inhabited

structure Disk where
  nodes : List (String × Disk.Node) := []
  deriving Inhabited

namespace Disk

inductive Cause where
  | notFound
  | notDirectory
  | isDirectory
  deriving DecidableEq, Repr

def Cause.text : Cause → String
  | .notFound => "no such file or directory"
  | .notDirectory => "not a directory"
  | .isDirectory => "is a directory"

structure Fault where
  call : String
  path : String
  cause : Cause
  deriving DecidableEq, Repr

def Fault.message (f : Fault) : String := s!"{f.call} {f.path}: {f.cause.text}"

def above (p : String) : List String :=
  let es := Path.elements p
  (List.range (es.length - 1)).map fun i => "/" ++ "/".intercalate (es.take (i + 1))

def node? (d : Disk) (p : String) : Option Node :=
  let p := Path.clean p
  if p = "/" then some .dir else d.nodes.lookup p

def look (d : Disk) (p : String) : Except Cause Node :=
  match d.node? p with
  | some n => .ok n
  | none =>
    let blocked := (above (Path.clean p)).any fun a => match d.node? a with
      | some (.file _) => true
      | _ => false
    .error (if blocked then .notDirectory else .notFound)

def isDir (d : Disk) (p : String) : Bool := d.node? p == some .dir

def isFile (d : Disk) (p : String) : Bool :=
  match d.node? p with
  | some (.file _) => true
  | _ => false

def readFile (d : Disk) (p : String) : Except Fault Bytes :=
  match d.look p with
  | .ok (.file bs) => .ok bs
  | .ok .dir => .error ⟨"read", p, .isDirectory⟩
  | .error c => .error ⟨"open", p, c⟩

def setNode (p : String) (n : Node) : List (String × Node) → List (String × Node)
  | [] => [(p, n)]
  | (q, m) :: rest => if q = p then (p, n) :: rest else (q, m) :: setNode p n rest

def put (d : Disk) (p : String) (n : Node) : Disk := { nodes := setNode (Path.clean p) n d.nodes }

def makeDirs (d : Disk) (p : String) : Except Fault Disk :=
  let p := Path.clean p
  if p = "/" then .ok d
  else (above p ++ [p]).foldlM (fun d a => match d.node? a with
    | some .dir => .ok d
    | some (.file _) => .error ⟨"mkdir", a, .notDirectory⟩
    | none => .ok (d.put a .dir)) d

def writeFile (d : Disk) (p : String) (bs : Bytes) : Except Fault Disk :=
  match d.look p with
  | .ok .dir => .error ⟨"open", p, .isDirectory⟩
  | .ok (.file _) => .ok (d.put p (.file bs))
  | .error .notFound =>
    if d.isDir (Path.dir p) then .ok (d.put p (.file bs)) else .error ⟨"open", p, .notFound⟩
  | .error c => .error ⟨"open", p, c⟩

def plant (d : Disk) (p : String) (bs : Bytes) : Disk :=
  match d.makeDirs (Path.dir p) with
  | .ok d => d.put p (.file bs)
  | .error _ => d

def isBelow (dir p : String) : Bool := Text.startsWith (if dir = "/" then "/" else dir ++ "/") p

def removeAll (d : Disk) (p : String) : Disk :=
  let p := Path.clean p
  { nodes := d.nodes.filter fun (q, _) => !(q == p || isBelow p q) }

def filesBelow (d : Disk) (dir : String) : List (String × Bytes) :=
  let dir := Path.clean dir
  let files := d.nodes.filterMap fun (q, n) => match n with
    | .file bs => if isBelow dir q then some (q, bs) else none
    | .dir => none
  files.mergeSort fun a b => a.1 ≤ b.1

def names (d : Disk) (dir : String) : List String :=
  let dir := Path.clean dir
  let inside := d.nodes.filter fun (q, _) => q != dir && Path.dir q == dir
  (inside.map fun (q, _) => Path.base q).mergeSort fun a b => a ≤ b

end Disk

end Tenure
