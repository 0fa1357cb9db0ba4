import Tenure.Disk
import Tenure.Locator

/- Where documents are kept: the local disk, and a store in memory for `mem:` URLs. -/
namespace Tenure

structure Storage where
  disk : Disk := {}
  memory : Disk := {}
  deriving Inhabited

namespace Storage

structure Place where
  inMemory : Bool
  path : String

def place (u : String) : Place :=
  match Locator.scheme? u with
  | some ("mem", rest) => ⟨true, Path.clean ("/" ++ rest)⟩
  | some _ => ⟨false, Locator.path u⟩
  | none => ⟨false, u⟩

/-- The URL of a place; paths of the local disk have one too. -/
def canonical (u : String) : String :=
  if Locator.isUrl u then u else "file://localhost" ++ Path.clean u

def at_ (s : Storage) (p : Place) : Disk := if p.inMemory then s.memory else s.disk

def look (s : Storage) (u : String) : Except Disk.Cause Disk.Node :=
  let p := place u
  (s.at_ p).look p.path

def read (s : Storage) (u : String) : Except Disk.Fault Bytes :=
  let p := place u
  (s.at_ p).readFile p.path

def write (s : Storage) (u : String) (bs : Bytes) : Except Disk.Fault Storage := do
  let p := place u
  let d ← (s.at_ p).makeDirs (Path.dir p.path)
  let d ← d.writeFile p.path bs
  return if p.inMemory then { s with memory := d } else { s with disk := d }

def filesBelow (s : Storage) (u : String) (skip : String → Bool) : List String :=
  let p := place u
  let lead := if p.path = "/" then "/" else p.path ++ "/"
  let paths := ((s.at_ p).filesBelow p.path).map fun (q, _) => Text.withoutLead lead q
  paths.filter fun q => !(Path.elements q).dropLast.any skip

end Storage

end Tenure
