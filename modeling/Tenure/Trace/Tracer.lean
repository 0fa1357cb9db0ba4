import Tenure.Trace.Event

/- Spans of work, one inside the other, told as events. -/
namespace Tenure.Trace

structure Context where
  span : Nat := 0
  depth : Nat := 0
  deriving DecidableEq, Repr, Inhabited

structure Span where
  id : Nat
  parent : Nat
  depth : Nat
  scope : Scope
  name : String
  extra : List (String × String) := []
  deriving Repr, Inhabited

def Span.withExtra (s : Span) (key value : String) : Span :=
  { s with extra := (s.extra.filter fun (k, _) => k != key) ++ [(key, value)] }

structure Tracer where
  level : Level
  events : Array Event := #[]
  seqs : Nat := 0
  spans : Nat := 0
  asides : Array (Nat × String) := #[]

namespace Tracer

def tells (t : Tracer) (s : Scope) : Bool := t.level.isOn && t.level.tells s

def emit (t : Tracer) (e : Event) : Tracer :=
  { t with events := t.events.push { e with seq := t.seqs + 1 }, seqs := t.seqs + 1 }

def open_ (t : Tracer) (c : Context) (scope : Scope) (name : String) : Tracer × Option Span :=
  if t.tells scope then
    let s : Span := { id := t.spans + 1, parent := c.span, depth := c.depth, scope, name }
    let t := t.emit
      { seq := 0, kind := .start, scope, span := s.id, parent := c.span, depth := c.depth, name }
    ({ t with spans := t.spans + 1 }, some s)
  else (t, none)

def inside (c : Context) : Option Span → Context
  | some s => { span := s.id, depth := s.depth + 1 }
  | none => c

def close (t : Tracer) (s : Option Span) (detail : String) : Tracer :=
  match s with
  | none => t
  | some s => t.emit { seq := 0, kind := .stop, scope := s.scope, span := s.id, parent := s.parent
                       depth := s.depth, name := s.name, detail, extra := s.extra }

def point (t : Tracer) (c : Context) (scope : Scope) (name detail : String) : Tracer :=
  if t.tells scope then
    t.emit { seq := 0, kind := .point, scope, parent := c.span, depth := c.depth, name, detail }
  else t

def say (t : Tracer) (line : String) : Tracer :=
  { t with asides := t.asides.push (t.events.size, line) }

def weave (line : Event → String) : Nat → List Event → List (Nat × String) → List String
  | _, [], asides => asides.map fun (_, s) => s ++ "\n"
  | i, e :: es, asides =>
    (asides.takeWhile (·.1 ≤ i)).map (fun (_, s) => s ++ "\n") ++
      line e :: weave line (i + 1) es (asides.dropWhile (·.1 ≤ i))

def transcript (t : Tracer) (line : Event → String) : String :=
  String.join (weave line 0 t.events.toList t.asides.toList)

def said (t : Tracer) : String := String.join (t.asides.toList.map fun (_, s) => s ++ "\n")

end Tracer

inductive Story where
  | span (scope : Scope) (name : String) (inner : List Story) (detail : String)
      (extra : List (String × String))
  | point (scope : Scope) (name detail : String)
  /-- A line for the user, told at every level. -/
  | said (line : String)

mutual
def Story.tell (c : Context) : Story → Tracer → Tracer
  | .span scope name inner detail extra, t =>
    let (t, s) := t.open_ c scope name
    let t := Story.tellAll (Tracer.inside c s) inner t
    t.close (s.map fun s => { s with extra }) detail
  | .point scope name detail, t => t.point c scope name detail
  | .said line, t => t.say line
def Story.tellAll (c : Context) : List Story → Tracer → Tracer
  | [], t => t
  | s :: ss, t => Story.tellAll c ss (s.tell c t)
end

end Tenure.Trace
