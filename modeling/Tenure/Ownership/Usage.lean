import Tenure.Ownership.Mode

/- What a function body does with its bindings: one event for each use, in program order. -/
namespace Tenure

inductive EventKind where
  | read
  | mutate
  | move
  | store
  | capture
  deriving DecidableEq, Repr, Inhabited

namespace EventKind

def text : EventKind → String
  | .read => "read"
  | .mutate => "mutate"
  | .move => "move"
  | .store => "store"
  | .capture => "capture"

def ofAccess : Access → EventKind
  | .read => .read
  | .mutate => .mutate
  | .move => .move
  | .store => .store

end EventKind

/-- One use of a binding. For a capture, `expr` is the closure, and the last flags say what its body
does with the binding. -/
structure Event where
  seq : Nat
  kind : EventKind
  binding : Nat
  expr : Nat
  span : Range
  stmt : Range
  loopDepth : Nat
  inReturn : Bool
  /-- A whole-value assignment: it makes a binding valid again that was given away. -/
  reinit : Bool := false
  /-- The capturing closure outlives the statement. -/
  escaping : Bool := false
  mutates : Bool := false
  moves : Bool := false
  /-- The variable of the loop that iterates over this occurrence, or zero. -/
  loopVar : Nat := 0
  deriving DecidableEq, Repr, Inhabited

namespace Event

def effective (e : Event) : EventKind :=
  if e.kind ≠ .capture then e.kind
  else if e.escaping || e.moves then .store
  else if e.mutates then .mutate
  else .read

def isMutation (e : Event) : Bool := e.effective == .mutate

def transfers (e : Event) : Bool := e.effective == .move || e.effective == .store

end Event

structure Usage where
  binding : Nat
  declLoop : Nat := 0
  events : List Event := []
  deriving DecidableEq, Repr, Inhabited

structure Projection where
  expr : Nat
  root : Nat
  ty : Ty
  span : Range
  stmt : Range
  seq : Nat

structure LoopSite where
  stmt : Nat
  var : Nat
  iter : Expr

/-- Everything that is known about the uses in one function. The usages stand in the order in which
their bindings were declared or first met. -/
structure Collection where
  usages : List Usage := []
  escaping : List (Nat × Bool) := []
  captures : List (Nat × List Nat) := []
  projections : List Projection := []
  loops : List LoopSite := []

namespace Collection

def usage? (c : Collection) (b : Nat) : Option Usage := c.usages.find? (·.binding == b)

def events (c : Collection) (b : Nat) : List Event := ((c.usage? b).map (·.events)).getD []

end Collection

def setKey {α : Type} (key : Nat) (value : α) : List (Nat × α) → List (Nat × α)
  | [] => [(key, value)]
  | (k, v) :: kvs => if k = key then (key, value) :: kvs else (k, v) :: setKey key value kvs

end Tenure
