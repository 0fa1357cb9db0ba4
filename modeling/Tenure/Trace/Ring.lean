import Tenure.Trace.Event

/- The latest events, in a fixed number of places that are taken again and again. -/
namespace Tenure.Trace

structure Ring where
  level : Level
  slots : Array (Option Event)
  head : Nat := 0
  full : Bool := false

namespace Ring

def defaultCapacity : Nat := 4096

def new (capacity : Int) (level : Level) : Ring :=
  { level, slots := Array.replicate (if capacity ≤ 0 then defaultCapacity else capacity.toNat) none }

def emit (r : Ring) (e : Event) : Ring :=
  if r.level.passes e then
    let head := (r.head + 1) % r.slots.size
    { r with slots := r.slots.set! r.head (some e), head, full := r.full || head == 0 }
  else r

def emitAll (r : Ring) (es : List Event) : Ring := es.foldl emit r

def snapshot (r : Ring) : List Event :=
  let slots := r.slots.toList
  let kept := if r.full then slots.drop r.head ++ slots.take r.head else slots.take r.head
  kept.filterMap id

end Ring

def Storage.streamed (mode : Storage) (level : Level) (es : List Event) : List Event :=
  if level.isOn && mode.streams then es.filter level.passes else []

def Storage.kept? (mode : Storage) (level : Level) (capacity : Int) (es : List Event) :
    Option (List Event) :=
  if level.isOn && mode.keeps then some ((Ring.new capacity level).emitAll es).snapshot else none

end Tenure.Trace
