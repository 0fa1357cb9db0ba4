import Tenure.Ownership.Mode

/- The modes in which functions take their parameters, as call sites see them. -/
namespace Tenure

structure Signature where
  name : String
  hasReceiver : Bool := false
  receiver : Mode := .unresolved
  params : List Mode := []
  isExtern : Bool := false
  deriving DecidableEq, Repr, Inhabited

namespace Signature

/-- Surplus arguments are read. -/
def param (s : Signature) (i : Nat) : Mode := s.params.getD i .shared

/-- Whether call sites can tell two signatures apart. -/
def agrees (s t : Signature) : Bool :=
  s.hasReceiver == t.hasReceiver && s.receiver == t.receiver && s.params == t.params

end Signature

/-- Signatures by qualified name, each name once. -/
abbrev Signatures := List (String × Signature)

namespace Signatures

def get? (table : Signatures) (name : String) : Option Signature :=
  if name.isEmpty then none else table.lookup name

def insert (table : Signatures) (name : String) (s : Signature) : Signatures :=
  match table with
  | [] => [(name, s)]
  | (k, t) :: rest => if k = name then (name, s) :: rest else (k, t) :: insert rest name s

/-- Markers are fixed, copied types are passed by value, foreign functions take everything by
value, and every other parameter starts at the weakest mode. -/
def seedMode (isExtern : Bool) : Option Binding → Mode
  | none => .shared
  | some b =>
    if b.marker ≠ .none then Mode.ofMarker b.marker
    else if isExtern || b.ty.isCopy then .owned
    else .shared

def seedOf (m : Module) (f : FuncDecl) : Signature :=
  { name := f.qualified
    hasReceiver := f.receiver != 0
    receiver := if f.receiver = 0 then .unresolved else seedMode f.isExtern (m.binding? f.receiver)
    params := f.params.map fun p => seedMode f.isExtern (m.binding? p)
    isExtern := f.isExtern }

/-- Of two functions with one name the later one counts. -/
def seed (m : Module) : Signatures :=
  m.funcs.foldl (fun table f => insert table f.qualified (seedOf m f)) []

end Signatures

end Tenure
