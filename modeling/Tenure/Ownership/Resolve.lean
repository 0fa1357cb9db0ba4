import Tenure.Diagnostic.Basic
import Tenure.Ownership.Usage

/- From the uses of a binding to its mode: a mode is as strong as the strongest use, and a value that
   is given away although it is needed again is duplicated first. A binding for which nothing fits is
   reported and gets the closest mode. -/
namespace Tenure

inductive Reason where
  | laterUse
  | loopCarried
  | projection
  deriving DecidableEq, Repr, Inhabited

def Reason.text : Reason → String
  | .laterUse => "later-use"
  | .loopCarried => "loop-carried"
  | .projection => "projection"

/-- A duplicate that is made right before a use. For captures, `expr` is the closure. -/
structure DuplicatePoint where
  binding : Nat
  name : String
  expr : Nat
  span : Range
  stmt : Range
  reason : Reason
  capture : Bool := false
  seq : Nat
  deriving DecidableEq, Repr, Inhabited

inductive Adaptor where
  | none
  | iter
  | iterMut
  | copied
  | cloned
  deriving DecidableEq, Repr, Inhabited

def Adaptor.suffixText : Adaptor → String
  | .none => ""
  | .iter => ".iter()"
  | .iterMut => ".iter_mut()"
  | .copied => ".iter().copied()"
  | .cloned => ".iter().cloned()"

namespace Binding

/-- Declared to be modified; parameters and loop variables may also be modified in place, but not
replaced. -/
def allows (b : Binding) (e : Event) : Bool :=
  b.mutable || b.marker == .mutRef ||
    match b.kind with
    | .param | .receiver | .loop => !e.reinit
    | _ => false

def conflict (b : Binding) (e : Event) (problem advice : String) : Diagnostic :=
  { code := .annotationConflict, kind := .annotationConflict, category := "annotation-conflict"
    message := s!"`{b.name}` is declared as {problem}"
    primary := e.span
    notes := [⟨b.span, "declared here"⟩]
    suggestions := [advice] }

def immutable (b : Binding) (e : Event) : Diagnostic :=
  let advice := match b.kind with
    | .param | .receiver | .closureParam => s!"declare the parameter as `mut {b.name}`"
    | .loop => s!"write `for mut {b.name} in ...`"
    | .local_ => s!"declare it as `let mut {b.name}`"
  { code := .immutableAssign, kind := .annotationConflict, category := "cannot-modify"
    message := s!"cannot modify `{b.name}`: it is not declared mutable"
    primary := e.stmt
    notes := [⟨b.span, "declared here"⟩]
    suggestions := [advice]
    fixes := [Fix.insert s!"make `{b.name}` mutable" b.span.file b.span.start "mut "] }

def unresolved (b : Binding) (code : Code) (e : Event) (other : Option Event)
    (message otherNote advice : String) : Diagnostic :=
  { code, kind := .unresolved, category := "ownership-unresolved", message
    primary := e.span
    notes := ⟨b.span, "declared here"⟩ ::
      (other.map fun o => (⟨o.span, otherNote⟩ : Note)).toList
    suggestions := [advice] }

end Binding

/-- The next use that sees the present value; replacing the value ends it. -/
def nextUse : List Event → Option Event
  | [] => none
  | e :: _ => if e.reinit then none else some e

def nextMutation : List Event → Option Event
  | [] => none
  | e :: es => if e.reinit then none else if e.isMutation then some e else nextMutation es

inductive Provision where
  | nothing
  | duplicate (p : DuplicatePoint)
  | refused (d : Diagnostic)

/-- A value that `e` gives away is duplicated when a later use needs it, or when `e` comes again in the
next round of a loop. A return is always last. -/
def provide (b : Binding) (declLoop : Nat) (e : Event) (later : List Event) : Provision :=
  if !e.transfers || e.inReturn then .nothing
  else
    let next := nextUse later
    let reason : Option Reason :=
      if next.isSome then some .laterUse
      else if declLoop < e.loopDepth then some .loopCarried
      else none
    match reason with
    | none => .nothing
    | some reason =>
      match if e.kind = .capture then nextMutation later else none with
      | some change => .refused (b.unresolved .escapingCaptureMutated e (some change)
          (s!"`{b.name}` is captured by a closure that outlives this statement " ++
            "and is modified afterwards")
          "modified here"
          s!"annotate `{b.name}` explicitly, or modify it before the closure is created")
      | none =>
        if b.ty.isClonable then
          .duplicate { binding := b.id, name := b.name, expr := e.expr, span := e.span
                       stmt := e.stmt, reason, capture := e.kind == .capture, seq := e.seq }
        else
          let ty := b.ty.text
          .refused (b.unresolved .nonClonableDuplicate e next
            s!"`{b.name}` must be duplicated here but values of type {ty} cannot be copied"
            "used again here"
            s!"restructure the code so `{b.name}` is used last at this point")

def provisions (b : Binding) (declLoop : Nat) : List Event → List Provision
  | [] => []
  | e :: es => provide b declLoop e es :: provisions b declLoop es

def Provision.point? : Provision → Option DuplicatePoint
  | .duplicate p => some p
  | _ => none

def Provision.finding? : Provision → Option Diagnostic
  | .refused d => some d
  | _ => none

structure Settlement where
  mode : Mode
  mutated : Bool
  points : List DuplicatePoint := []
  findings : List Diagnostic := []

/-- A marker decides the mode; without one, the uses do. -/
def Binding.settle (b : Binding) (u : Usage) : Settlement :=
  let change := u.events.find? Event.isMutation
  let transfer := u.events.find? Event.transfers
  let mutated := change.isSome
  match b.marker with
  | .ref =>
    { mode := .shared, mutated
      findings :=
        (change.map fun e => b.conflict e "a shared reference but is modified here"
          "remove the `ref` annotation or declare it `mutref`").toList ++
        (transfer.map fun e => b.conflict e "a reference but is given away here"
          "remove the `ref` annotation or pass a copy with `.clone()`").toList }
  | .mutRef =>
    { mode := .exclusive, mutated
      findings :=
        (transfer.map fun e => b.conflict e "a mutable reference but is given away here"
          "remove the `mutref` annotation or annotate it `owned`").toList }
  | marker =>
    let illegal := ((u.events.find? fun e => e.isMutation && !b.allows e).map b.immutable).toList
    if b.ty.isCopy then { mode := .owned, mutated, findings := illegal }
    else if marker = .owned ∨ transfer.isSome then
      let outcome := provisions b u.declLoop u.events
      { mode := .owned, mutated
        points := outcome.filterMap Provision.point?
        findings := illegal ++ outcome.filterMap Provision.finding? }
    else { mode := if mutated then .exclusive else .shared, mutated, findings := illegal }

structure Verdict where
  modes : List (Nat × Mode) := []
  mutated : List Nat := []
  points : List DuplicatePoint := []
  adaptors : List (Nat × Adaptor) := []
  findings : List Diagnostic := []

namespace Verdict

def mode (v : Verdict) (b : Nat) : Mode := (v.modes.lookup b).getD .unresolved

def isMutated (v : Verdict) (b : Nat) : Bool := v.mutated.contains b

def duplicate? (v : Verdict) (expr : Nat) : Option DuplicatePoint :=
  v.points.reverse.find? fun p => !p.capture && p.expr == expr

def captureClones (v : Verdict) (closure : Nat) : List Nat :=
  (v.points.filter fun p => p.capture && p.expr == closure).map (·.binding)

def adaptor (v : Verdict) (stmt : Nat) : Adaptor := (v.adaptors.lookup stmt).getD .none

def hasErrors (v : Verdict) : Bool := v.findings.any (·.severity == .error)

def add (v : Verdict) (b : Nat) (s : Settlement) : Verdict :=
  { v with
    modes := setKey b s.mode v.modes
    mutated := if s.mutated then b :: v.mutated else v.mutated
    points := v.points ++ s.points
    findings := v.findings ++ s.findings }

def settle (m : Module) (c : Collection) (v : Verdict) (b : Nat) : Verdict :=
  match m.binding? b with
  | none => v
  | some binding => v.add b (binding.settle ((c.usage? b).getD { binding := b }))

end Verdict

/-- Reading the iterable of a loop that modifies its variable is modifying it. -/
def Event.retarget (loopVar : Nat) (e : Event) : Event :=
  if e.loopVar = loopVar ∧ e.kind = .read then { e with kind := .mutate } else e

def Collection.retarget (c : Collection) (loopVar : Nat) : Collection :=
  { c with
    usages := c.usages.map fun u => { u with events := u.events.map (Event.retarget loopVar) } }

def LoopSite.adaptor (m : Module) (l : LoopSite) (mode : Mode) : Adaptor :=
  if l.iter.isKind .range then .none
  else if ((m.binding? l.var).map (·.ty.isCopy)).getD false then .copied
  else match mode with
    | .exclusive => .iterMut
    | .owned => .cloned
    | _ => .iter

def resolveLoop (m : Module) (l : LoopSite) (s : Collection × Verdict) : Collection × Verdict :=
  let v := s.2.settle m s.1 l.var
  let mode := v.mode l.var
  (if mode = .exclusive then s.1.retarget l.var else s.1,
    { v with adaptors := setKey l.stmt (l.adaptor m mode) v.adaptors })

/-- A part of a value that is given away is always a duplicate. -/
def Projection.provide (m : Module) (p : Projection) : Provision :=
  if p.ty.isClonable then
    .duplicate { binding := p.root, name := ((m.binding? p.root).map (·.name)).getD "", expr := p.expr
                 span := p.span, stmt := p.stmt, reason := .projection, seq := p.seq }
  else
    let name := ((m.binding? p.root).map (·.name)).getD "value"
    let ty := p.ty.text
    .refused { code := .nonClonableDuplicate, kind := .unresolved, category := "ownership-unresolved"
               message := s!"a part of `{name}` is given away here " ++
                 s!"but values of type {ty} cannot be copied"
               primary := p.span }

/-- Settles every binding. Inner loops come first, because what iterates over an outer loop variable
decides about it. The uses are returned as the loops have retargeted them. -/
def Collection.resolve (m : Module) (c : Collection) : Collection × Verdict :=
  let (c, v) := c.loops.foldr (resolveLoop m) (c, {})
  let v := c.usages.foldl
    (fun v u => if (v.modes.lookup u.binding).isSome then v else v.settle m c u.binding) v
  let parts := c.projections.map (Projection.provide m)
  (c, { v with
    points := (v.points ++ parts.filterMap Provision.point?).mergeSort fun p q => p.seq ≤ q.seq
    findings := (v.findings ++ parts.filterMap Provision.finding?).mergeSort
      fun d e => !e.primary.before d.primary })

end Tenure
