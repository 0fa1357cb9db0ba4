import Tenure.Hash.Lanes
import Tenure.Release

/- Compiled units kept from run to run, by a digest of what they were compiled from. -/
namespace Tenure

/-- A unit as it is kept. Its source map is in stored form. -/
structure CachedUnit where
  schema : Nat := 1
  module : String
  generated : String
  text : String
  map : String
  functions : Int := 0
  deriving DecidableEq, Repr, Inhabited

inductive Cache.Slot where
  | unit (u : CachedUnit)
  /-- Bytes that write no unit. -/
  | damaged
  | taken
  deriving DecidableEq, Repr, Inhabited

structure Cache where
  slots : List (String × Cache.Slot) := []
  blocked : Bool := false
  deriving DecidableEq, Repr, Inhabited

namespace Cache

def currentSchema : Nat := 1

inductive Fault where
  | unreachable
  | damaged
  | taken
  deriving DecidableEq, Repr

def Fault.message : Fault → String
  | .unreachable => "not a directory"
  | .damaged => "entry cannot be decoded"
  | .taken => "file exists"

def get (c : Cache) (key : String) : Except Fault (Option CachedUnit) :=
  if c.blocked then .error .unreachable
  else match c.slots.lookup key with
    | none => .ok none
    | some (.unit u) => .ok (if u.schema = currentSchema then some u else none)
    | some .damaged => .error .damaged
    | some .taken => .error .taken

def setSlot (key : String) (slot : Slot) : List (String × Slot) → List (String × Slot)
  | [] => [(key, slot)]
  | (k, s) :: rest => if k = key then (key, slot) :: rest else (k, s) :: setSlot key slot rest

def put (c : Cache) (key : String) (u : CachedUnit) : Except Fault Cache :=
  if c.blocked then .error .unreachable
  else match c.slots.lookup key with
    | some .taken => .error .taken
    | _ => .ok { c with slots := setSlot key (.unit { u with schema := currentSchema }) c.slots }

def drop (_ : Cache) : Cache := {}

/-- A unit is told by its document, by the release that compiles it, and by the name of its file. -/
def unitKey (release : Release) (document : Bytes) (generated : String) : String :=
  Bytes.hex (Hash.content [document, [0], Bytes.ofString release.fingerprint, [0],
    Bytes.ofString generated])

end Cache

end Tenure
