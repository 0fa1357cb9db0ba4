import Tenure.Ownership.Builtin
import Tenure.Ownership.Signature
import Tenure.Ownership.Usage
import Tenure.Program.Walk

/- Collecting the uses of every binding of a function. Inside a closure, uses of outer bindings are
   gathered into its captures, which count as one use where the closure stands. -/
namespace Tenure

/-- What a closure does with an outer binding; `span` is the first use. -/
structure Capture where
  binding : Nat
  span : Range
  mutates : Bool := false
  moves : Bool := false

def Capture.add (c : Capture) : Access → Capture
  | .read => c
  | .mutate => { c with mutates := true }
  | .move | .store => { c with moves := true }

def Capture.access (c : Capture) (escaping : Bool) : Access :=
  if escaping || c.moves then .store else if c.mutates then .mutate else .read

/-- An open closure: the bindings declared inside, and the captures so far. -/
structure Frame where
  locals : List Nat := []
  captures : List Capture := []

def addCapture (b : Nat) (access : Access) (span : Range) : List Capture → List Capture
  | [] => [Capture.add { binding := b, span } access]
  | c :: cs => if c.binding = b then c.add access :: cs else c :: addCapture b access span cs

def Frame.capture (f : Frame) (b : Nat) (access : Access) (span : Range) : Frame :=
  { f with captures := addCapture b access span f.captures }

/-- What is known beforehand: the signatures, and which `let`-bound closures escape. -/
structure Outlook where
  table : Signatures
  escapingLets : List Nat := []

structure Collector where
  found : Collection := {}
  seq : Nat := 0
  loopDepth : Nat := 0
  inReturn : Bool := false
  stmt : Range := Range.zero
  loopVar : Nat := 0
  frames : List Frame := []

namespace Collector

def addEvent (e : Event) : List Usage → List Usage
  | [] => [{ binding := e.binding, events := [e] }]
  | u :: us =>
    if u.binding = e.binding then { u with events := u.events ++ [e] } :: us else u :: addEvent e us

def isLocal (c : Collector) (b : Nat) : Bool :=
  match c.frames with
  | [] => true
  | f :: _ => f.locals.contains b

def declare (c : Collector) (b : Nat) : Collector :=
  if b = 0 then c
  else
    let usages :=
      if c.found.usages.any (·.binding == b) then c.found.usages
      else c.found.usages ++ [{ binding := b, declLoop := c.loopDepth }]
    { c with
      found := { c.found with usages }
      frames := match c.frames with
        | [] => []
        | f :: fs => { f with locals := b :: f.locals } :: fs }

def declareAll (c : Collector) (bs : List Nat) : Collector := bs.foldl declare c

def record (c : Collector) (e : Event) : Collector :=
  let e := { e with
    seq := c.seq, stmt := c.stmt, loopDepth := c.loopDepth, inReturn := c.inReturn }
  { c with found := { c.found with usages := addEvent e c.found.usages }, seq := c.seq + 1 }

/-- A use of `b`: an event, or part of a capture when the innermost closure does not declare it. -/
def use (c : Collector) (b : Nat) (access : Access) (expr : Nat) (span : Range) (reinit : Bool) :
    Collector :=
  if b = 0 then c
  else if c.isLocal b then
    c.record { seq := 0, kind := EventKind.ofAccess access, binding := b, expr, span
               stmt := Range.zero, loopDepth := 0, inReturn := false, reinit
               loopVar := c.loopVar }
  else match c.frames with
    | [] => c
    | f :: fs => { c with frames := f.capture b access span :: fs }

/-- A finished closure passes a capture on to the closure around it, or records it. -/
def passOn (expr : Nat) (escaping : Bool) (c : Collector) (cap : Capture) : Collector :=
  if c.isLocal cap.binding then
    c.record { seq := 0, kind := .capture, binding := cap.binding, expr, span := cap.span
               stmt := Range.zero, loopDepth := 0, inReturn := false, escaping
               mutates := cap.mutates, moves := cap.moves }
  else match c.frames with
    | [] => c
    | f :: fs =>
      { c with frames := f.capture cap.binding (cap.access escaping) cap.span :: fs }

def openClosure (c : Collector) (expr : Nat) (escaping : Bool) (params : List Nat) : Collector :=
  let c := { c with
    found := { c.found with escaping := setKey expr escaping c.found.escaping }
    frames := {} :: c.frames }
  { c.declareAll params with inReturn := false, loopVar := 0 }

/-- `outer` is the state before the closure was opened. -/
def closeClosure (c outer : Collector) (expr : Nat) (escaping : Bool) : Collector :=
  let caps := match c.frames with
    | [] => []
    | f :: _ => f.captures
  let c := { c with
    inReturn := outer.inReturn
    loopVar := outer.loopVar
    frames := c.frames.tail
    found := { c.found with
      captures := setKey expr (caps.map (·.binding)) c.found.captures } }
  caps.foldl (passOn expr escaping) c

/-- Giving away a part of a binding needs a duplicate of the part, unless it is copied anyway. -/
def project (c : Collector) (info : ExprInfo) (root : Nat) (access : Access) : Collector :=
  let typed := match info.ty with
    | .unknown => false
    | t => !t.isCopy
  if access.transfers && root != 0 && typed && c.isLocal root then
    { c with found := { c.found with
      projections := c.found.projections ++
        [{ expr := info.id, root, ty := info.ty, span := info.span, stmt := c.stmt, seq := c.seq }] } }
  else c

def enterLoop (c : Collector) : Collector := { c with loopDepth := c.loopDepth + 1 }

def leaveLoop (c : Collector) : Collector := { c with loopDepth := c.loopDepth - 1 }

def addLoop (c : Collector) (l : LoopSite) : Collector :=
  { c with found := { c.found with loops := c.found.loops ++ [l] } }

end Collector

def ExprInfo.callee (info : ExprInfo) : String :=
  if info.target.isEmpty then info.name else info.target

def argAccess (sig : Option Signature) (i : Nat) : Access :=
  match sig with
  | some s => Access.ofMode (s.param i)
  | none => .read

mutual
def Expr.collect (o : Outlook) : Expr → Access → Collector → Collector
  | .absent _, _, c => c
  | .node info x y args inits body result, access, c =>
    match info.kind with
    | .ident => c.use info.binding access info.id info.span false
    | .lit => c
    | .field =>
      if access = .mutate then x.collect o .mutate c
      else x.collect o .read
        (c.project info (Expr.node info x y args inits body result).root access)
    | .index =>
      let outer := c.loopVar
      let c := { y.collect o .read { c with loopVar := 0 } with loopVar := outer }
      if access = .mutate then x.collect o .mutate c
      else x.collect o .read
        (c.project info (Expr.node info x y args inits body result).root access)
    | .call =>
      if info.binding ≠ 0 then
        Expr.collectAll o args (fun _ => .move) 0
          (c.use info.binding .read info.id info.span false)
      else Expr.collectAll o args (argAccess (o.table.get? info.callee)) 0 c
    | .methodCall =>
      match o.table.get? info.target with
      | some sig =>
        Expr.collectAll o args (argAccess (some sig)) 0 (x.collect o (Access.ofMode sig.receiver) c)
      | none =>
        let method := BuiltinMethod.named info.name
        Expr.collectAll o args (fun _ => method.args) 0 (x.collect o method.receiver c)
    | .binary | .range => y.collect o .read (x.collect o .read c)
    | .unary => x.collect o .read c
    | .structLit => FieldInit.collectAll o inits c
    | .arrayLit => Expr.collectAll o args (fun _ => .store) 0 c
    | .closure =>
      let inner := c.openClosure info.id access.transfers info.params
      (body.collect o (result.collect o .move inner)).closeClosure c info.id access.transfers
def Expr.collectAll (o : Outlook) : List Expr → (Nat → Access) → Nat → Collector → Collector
  | [], _, _, c => c
  | e :: es, access, i, c => Expr.collectAll o es access (i + 1) (e.collect o (access i) c)
def FieldInit.collectAll (o : Outlook) : List FieldInit → Collector → Collector
  | [], c => c
  | .mk _ _ value :: is, c => FieldInit.collectAll o is (value.collect o .store c)
def Stmt.collect (o : Outlook) : Stmt → Collector → Collector
  | .absent _, c => c
  | .node info target value body orElse, outer =>
    let c := { outer with stmt := info.span }
    let c : Collector := match info.kind with
      | .letVar =>
        let access : Access :=
          if value.isKind .closure && !o.escapingLets.contains info.binding then .read else .move
        (value.collect o access c).declare info.binding
      | .assign =>
        match target.info? with
        | none => value.collect o .read c
        | some t =>
          if info.op ≠ "=" then target.collect o .mutate (value.collect o .read c)
          else if t.kind = .ident then
            (value.collect o .move c).use t.binding .mutate t.id t.span true
          else target.collect o .mutate (value.collect o .store c)
      | .eval => value.collect o .read c
      | .give => { value.collect o .move { c with inReturn := true } with inReturn := false }
      | .branch => orElse.collect o (Stmt.collectAll o body (value.collect o .read c))
      | .whileLoop =>
        (Stmt.collectAll o body (value.collect o .read c.enterLoop)).leaveLoop
      | .forLoop =>
        let place := (value.info?.map (·.kind.isPlace)).getD false
        let c : Collector :=
          if place then
            { value.collect o .read { c with loopVar := info.binding } with loopVar := 0 }
          else value.collect o .read c
        let c := (c.addLoop ⟨info.id, info.binding, value⟩).enterLoop
        (Stmt.collectAll o body (c.declare info.binding)).leaveLoop
      | .block => Stmt.collectAll o body c
      | .leave | .again => c
    { c with stmt := outer.stmt }
def Stmt.collectAll (o : Outlook) : List Stmt → Collector → Collector
  | [], c => c
  | s :: ss, c => Stmt.collectAll o ss (s.collect o c)
end

namespace FuncDecl

def collectWith (f : FuncDecl) (o : Outlook) : Collection :=
  let c : Collector := {}
  (Stmt.collectAll o f.body ((c.declare f.receiver).declareAll f.params)).found

def closureLets (f : FuncDecl) : List Nat :=
  (Stmt.nodesAll f.body).filterMap fun n => match n with
    | .stmt (.node info _ value ..) =>
      if info.kind = .letVar ∧ value.isKind .closure then some info.binding else none
    | _ => none

/-- The uses in a function, when calls go by `table`. A closure that a `let` names escapes when the
name is given away later, which only a first pass can tell. -/
def collect (f : FuncDecl) (table : Signatures) : Collection :=
  let first := f.collectWith { table }
  let escapingLets := f.closureLets.filter fun b => (first.events b).any Event.transfers
  if escapingLets.isEmpty then first else f.collectWith { table, escapingLets }

end FuncDecl

end Tenure
