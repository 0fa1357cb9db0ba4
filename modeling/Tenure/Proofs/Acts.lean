import Tenure.Ownership.Collect

/- What happens in a body, as a list of acts in the order of evaluation. Loops and closures hold the
   acts inside them. Collecting the uses of a body is carrying out its acts one by one. -/
namespace Tenure

/-- Where an act stands: in which statement, whether its value is given back, and which variable runs
over it, or zero. -/
structure Spot where
  stmt : Range
  inReturn : Bool := false
  loopVar : Nat := 0

def Spot.inClosure (s : Spot) : Spot := { stmt := s.stmt }

structure Use where
  binding : Nat
  access : Access
  expr : Nat
  span : Range
  reinit : Bool := false
  spot : Spot

inductive Act where
  | declare (b : Nat)
  | use (u : Use)
  | loop (stmt : Nat) (acts : List Act)
  | each (site : LoopSite) (acts : List Act)
  | closure (expr : Nat) (escapes : Bool) (params : List Nat) (spot : Spot) (acts : List Act)

theorem acts_induction {P : List Act → Prop} (nil : P [])
    (cons : ∀ a as, P [a] → P as → P (a :: as)) (declare : ∀ b, P [.declare b])
    (use : ∀ u, P [.use u]) (loop : ∀ stmt acts, P acts → P [.loop stmt acts])
    (each : ∀ site acts, P acts → P [.each site acts])
    (closure : ∀ expr escapes params spot acts, P acts → P [.closure expr escapes params spot acts])
    (as : List Act) : P as :=
  @Act.rec_1 (fun a => P [a]) P declare use loop each closure nil cons as

def bindingsOf (bs : List Nat) : List Nat := bs.filter (· ≠ 0)

def Access.ofPart (access : Access) : Access := if access = .mutate then .mutate else .read

namespace Outlook

def letAccess (o : Outlook) (info : StmtInfo) (value : Expr) : Access :=
  if value.isKind .closure && !o.escapingLets.contains info.binding then .read else .move

def callAccess (o : Outlook) (info : ExprInfo) : Nat → Access :=
  if info.binding ≠ 0 then fun _ => .move else argAccess (o.table.get? info.callee)

def receiverAccess (o : Outlook) (info : ExprInfo) : Access :=
  match o.table.get? info.target with
  | some sig => Access.ofMode sig.receiver
  | none => (BuiltinMethod.named info.name).receiver

def methodAccess (o : Outlook) (info : ExprInfo) : Nat → Access :=
  match o.table.get? info.target with
  | some sig => argAccess (some sig)
  | none => fun _ => (BuiltinMethod.named info.name).args

end Outlook

def Use.acts (u : Use) : List Act := if u.binding = 0 then [] else [.use u]

def ExprInfo.use (info : ExprInfo) (access : Access) (spot : Spot) : Use :=
  { binding := info.binding, access, expr := info.id, span := info.span, spot }

mutual
def Expr.acts (o : Outlook) : Expr → Access → Spot → List Act
  | .absent _, _, _ => []
  | .node info x y args inits body result, access, spot =>
    match info.kind with
    | .ident => (info.use access spot).acts
    | .lit => []
    | .field => x.acts o access.ofPart spot
    | .index => y.acts o .read { spot with loopVar := 0 } ++ x.acts o access.ofPart spot
    | .call => (info.use .read spot).acts ++ Expr.actsAll o args (o.callAccess info) 0 spot
    | .methodCall =>
      x.acts o (o.receiverAccess info) spot ++ Expr.actsAll o args (o.methodAccess info) 0 spot
    | .binary | .range => x.acts o .read spot ++ y.acts o .read spot
    | .unary => x.acts o .read spot
    | .structLit => FieldInit.actsAll o inits spot
    | .arrayLit => Expr.actsAll o args (fun _ => .store) 0 spot
    | .closure =>
      [.closure info.id access.transfers (bindingsOf info.params) spot
        (result.acts o .move spot.inClosure ++ body.acts o)]
def Expr.actsAll (o : Outlook) : List Expr → (Nat → Access) → Nat → Spot → List Act
  | [], _, _, _ => []
  | e :: es, access, i, spot => e.acts o (access i) spot ++ Expr.actsAll o es access (i + 1) spot
def FieldInit.actsAll (o : Outlook) : List FieldInit → Spot → List Act
  | [], _ => []
  | .mk _ _ value :: is, spot => value.acts o .store spot ++ FieldInit.actsAll o is spot
def Stmt.acts (o : Outlook) : Stmt → List Act
  | .absent _ => []
  | .node info target value body orElse =>
    let spot : Spot := { stmt := info.span }
    match info.kind with
    | .letVar => value.acts o (o.letAccess info value) spot ++ (bindingsOf [info.binding]).map .declare
    | .assign =>
      match target.info? with
      | none => value.acts o .read spot
      | some t =>
        if info.op ≠ "=" then value.acts o .read spot ++ target.acts o .mutate spot
        else if t.kind = .ident then
          value.acts o .move spot ++ ({ t.use .mutate spot with reinit := true } : Use).acts
        else value.acts o .store spot ++ target.acts o .mutate spot
    | .eval => value.acts o .read spot
    | .give => value.acts o .move { spot with inReturn := true }
    | .branch => value.acts o .read spot ++ Stmt.actsAll o body ++ orElse.acts o
    | .whileLoop => [.loop info.id (value.acts o .read spot ++ Stmt.actsAll o body)]
    | .forLoop =>
      value.acts o .read
          { spot with
            loopVar := if (value.info?.map (·.kind.isPlace)).getD false then info.binding else 0 } ++
        [.each ⟨info.id, info.binding, value⟩ (Stmt.actsAll o body)]
    | .block => Stmt.actsAll o body
    | .leave | .again => []
def Stmt.actsAll (o : Outlook) : List Stmt → List Act
  | [] => []
  | s :: ss => s.acts o ++ Stmt.actsAll o ss
end

def Use.event (u : Use) (depth : Nat) : Event :=
  { seq := 0, kind := EventKind.ofAccess u.access, binding := u.binding, expr := u.expr
    span := u.span, stmt := u.spot.stmt, loopDepth := depth, inReturn := u.spot.inReturn
    reinit := u.reinit, loopVar := u.spot.loopVar }

def Capture.event (cap : Capture) (depth expr : Nat) (escapes : Bool) (spot : Spot) : Event :=
  { seq := 0, kind := .capture, binding := cap.binding, expr, span := cap.span, stmt := spot.stmt
    loopDepth := depth, inReturn := spot.inReturn, escaping := escapes, mutates := cap.mutates
    moves := cap.moves }

/-- What is known about the uses so far, and the open closures, innermost first. -/
structure Ledger where
  usages : List Usage := []
  loops : List LoopSite := []
  seq : Nat := 0
  frames : List Frame := []

namespace Ledger

def record (l : Ledger) (e : Event) : Ledger :=
  { l with
    usages := Collector.addEvent { e with seq := l.seq } l.usages
    seq := l.seq + 1 }

def note (l : Ledger) (e : Event) (access : Access) : Ledger :=
  match l.frames with
  | [] => l.record e
  | f :: fs =>
    if f.locals.contains e.binding then l.record e
    else { l with frames := f.capture e.binding access e.span :: fs }

def declare (l : Ledger) (depth b : Nat) : Ledger :=
  { l with
    usages :=
      if l.usages.any (·.binding == b) then l.usages
      else l.usages ++ [{ binding := b, declLoop := depth }]
    frames := l.frames.modifyHead fun f => { f with locals := b :: f.locals } }

def declareAll (l : Ledger) (depth : Nat) (bs : List Nat) : Ledger :=
  bs.foldl (fun l b => l.declare depth b) l

def visit (l : Ledger) (depth : Nat) (site : LoopSite) : Ledger :=
  { l with loops := l.loops ++ [site] }.declareAll depth (bindingsOf [site.var])

def enter (l : Ledger) (depth : Nat) (params : List Nat) : Ledger :=
  { l with frames := {} :: l.frames }.declareAll depth params

def leave (l : Ledger) (depth expr : Nat) (escapes : Bool) (spot : Spot) : Ledger :=
  match l.frames with
  | [] => l
  | f :: fs =>
    f.captures.foldl
      (fun l cap => l.note (cap.event depth expr escapes spot) (cap.access escapes))
      { l with frames := fs }

end Ledger

mutual
def Act.run (loops : List Nat) : Act → Ledger → Ledger
  | .declare b, l => l.declare loops.length b
  | .use u, l => l.note (u.event loops.length) u.access
  | .loop stmt acts, l => Act.runAll (stmt :: loops) acts l
  | .each site acts, l =>
    Act.runAll (site.stmt :: loops) acts (l.visit (loops.length + 1) site)
  | .closure expr escapes params spot acts, l =>
    (Act.runAll loops acts (l.enter loops.length params)).leave loops.length expr escapes spot
def Act.runAll (loops : List Nat) : List Act → Ledger → Ledger
  | [], l => l
  | a :: as, l => Act.runAll loops as (a.run loops l)
end

theorem runAll_append (loops : List Nat) (as bs : List Act) (l : Ledger) :
    Act.runAll loops (as ++ bs) l = Act.runAll loops bs (Act.runAll loops as l) := by
  induction as generalizing l with
  | nil => rw [Act.runAll, List.nil_append]
  | cons a as ih => rw [List.cons_append, Act.runAll, Act.runAll, ih]

theorem runAll_declares (loops bs : List Nat) (l : Ledger) :
    Act.runAll loops (bs.map .declare) l = l.declareAll loops.length bs := by
  induction bs generalizing l with
  | nil => rfl
  | cons b bs ih => rw [List.map_cons, Act.runAll, ih, Act.run]; rfl

namespace Collector

def ledger (c : Collector) : Ledger :=
  { usages := c.found.usages, loops := c.found.loops, seq := c.seq, frames := c.frames }

def spot (c : Collector) : Spot := { stmt := c.stmt, inReturn := c.inReturn, loopVar := c.loopVar }

/-- From `c` to `d` the acts were carried out, and nothing else that matters to later ones changed. -/
structure Follows (loops : List Nat) (acts : List Act) (c d : Collector) : Prop where
  ledger : d.ledger = Act.runAll loops acts c.ledger
  spot : d.spot = c.spot
  depth : c.loopDepth = loops.length → d.loopDepth = loops.length

section Follows

variable {loops : List Nat} {as bs : List Act} {c d e : Collector}

theorem Follows.refl : Follows loops [] c c := ⟨rfl, rfl, id⟩

theorem Follows.trans (first : Follows loops as c d) (second : Follows loops bs d e) :
    Follows loops (as ++ bs) c e where
  ledger := by rw [runAll_append, second.ledger, first.ledger]
  spot := second.spot.trans first.spot
  depth := second.depth ∘ first.depth

end Follows

theorem ledger_record (c : Collector) (e : Event) :
    (c.record e).ledger = c.ledger.record
      { e with stmt := c.stmt, loopDepth := c.loopDepth, inReturn := c.inReturn } := rfl

variable {c d : Collector} {loops : List Nat} {as : List Act}

theorem isLocal_frames {f : Frame} {fs : List Frame} (h : c.frames = f :: fs)
    (b : Nat) : c.isLocal b = f.locals.contains b := by
  rw [isLocal, h]

theorem declare_spot (c : Collector) (b : Nat) : (c.declare b).spot = c.spot := by
  unfold declare
  split <;> rfl

theorem declare_depth (c : Collector) (b : Nat) : (c.declare b).loopDepth = c.loopDepth := by
  unfold declare
  split <;> rfl

theorem declareAll_spot (c : Collector) (bs : List Nat) : (c.declareAll bs).spot = c.spot := by
  induction bs generalizing c with
  | nil => rfl
  | cons b bs ih => exact (ih (c.declare b)).trans (declare_spot c b)

theorem declareAll_depth (c : Collector) (bs : List Nat) :
    (c.declareAll bs).loopDepth = c.loopDepth := by
  induction bs generalizing c with
  | nil => rfl
  | cons b bs ih => exact (ih (c.declare b)).trans (declare_depth c b)

theorem ledger_declare (c : Collector) (b : Nat) :
    (c.declare b).ledger = c.ledger.declareAll c.loopDepth (bindingsOf [b]) := by
  by_cases zero : b = 0
  · simp [declare, bindingsOf, zero, Ledger.declareAll]
  · simp only [declare, if_neg zero, bindingsOf, Ledger.declareAll, Ledger.declare, ledger]
    cases c.frames with
    | nil => simp [zero]
    | cons f fs => simp [zero]

theorem ledger_declareAll (c : Collector) (bs : List Nat) :
    (c.declareAll bs).ledger = c.ledger.declareAll c.loopDepth (bindingsOf bs) := by
  induction bs generalizing c with
  | nil => rfl
  | cons b bs ih =>
    have split : bindingsOf (b :: bs) = bindingsOf [b] ++ bindingsOf bs :=
      List.filter_append [b] bs
    rw [declareAll, List.foldl_cons, ← declareAll, ih, ledger_declare, declare_depth, split]
    exact (List.foldl_append ..).symm

theorem declare_follows (depth : c.loopDepth = loops.length)
    (b : Nat) : Follows loops ((bindingsOf [b]).map .declare) c (c.declare b) where
  ledger := by rw [runAll_declares, ledger_declare, depth]
  spot := declare_spot c b
  depth := (declare_depth c b).trans

theorem use_follows (depth : c.loopDepth = loops.length)
    (b : Nat) (access : Access) (expr : Nat) (span : Range) (reinit : Bool) :
    Follows loops ({ binding := b, access, expr, span, reinit, spot := c.spot } : Use).acts c
      (c.use b access expr span reinit) := by
  by_cases zero : b = 0
  · simp only [use, Use.acts, if_pos zero]
    exact .refl
  · simp only [use, Use.acts, if_neg zero]
    cases frames : c.frames with
    | nil =>
      have here : c.isLocal b = true := by rw [isLocal, frames]
      rw [if_pos here]
      refine ⟨?_, rfl, id⟩
      rw [Act.runAll, Act.runAll, Act.run, Ledger.note, ledger_record]
      simp [ledger, frames, depth, Use.event, spot]
    | cons f fs =>
      rw [isLocal_frames frames]
      by_cases here : f.locals.contains b = true
      · rw [if_pos here]
        refine ⟨?_, rfl, id⟩
        rw [Act.runAll, Act.runAll, Act.run, Ledger.note, ledger_record]
        simp only [ledger, frames, Use.event, here, if_true, depth, spot]
      · rw [if_neg here]
        refine ⟨?_, rfl, id⟩
        rw [Act.runAll, Act.runAll, Act.run, Ledger.note]
        simp only [ledger, frames, Use.event, here, if_false, Bool.false_eq_true]

theorem passOn_note (c : Collector) (expr : Nat) (escapes : Bool) (cap : Capture) :
    (c.passOn expr escapes cap).ledger =
        c.ledger.note (cap.event c.loopDepth expr escapes c.spot) (cap.access escapes) ∧
      (c.passOn expr escapes cap).spot = c.spot ∧
      (c.passOn expr escapes cap).loopDepth = c.loopDepth := by
  unfold passOn
  cases frames : c.frames with
  | nil =>
    have here : c.isLocal cap.binding = true := by rw [isLocal, frames]
    rw [if_pos here, ledger_record, Ledger.note]
    refine ⟨?_, rfl, rfl⟩
    simp only [ledger, frames]
    rfl
  | cons f fs =>
    rw [isLocal_frames frames, Ledger.note]
    by_cases here : f.locals.contains cap.binding = true
    · rw [if_pos here, ledger_record]
      refine ⟨?_, rfl, rfl⟩
      simp only [ledger, frames, Capture.event, here, if_true]
      rfl
    · rw [if_neg here]
      refine ⟨?_, rfl, rfl⟩
      simp only [ledger, frames, Capture.event, here, if_false, Bool.false_eq_true]

theorem passOn_foldl (expr : Nat) (escapes : Bool) (caps : List Capture) (c : Collector) :
    (caps.foldl (passOn expr escapes) c).ledger = caps.foldl
        (fun l cap => l.note (cap.event c.loopDepth expr escapes c.spot) (cap.access escapes))
        c.ledger ∧
      (caps.foldl (passOn expr escapes) c).spot = c.spot ∧
      (caps.foldl (passOn expr escapes) c).loopDepth = c.loopDepth := by
  induction caps generalizing c with
  | nil => exact ⟨rfl, rfl, rfl⟩
  | cons cap caps ih =>
    obtain ⟨noted, spot, depth⟩ := passOn_note c expr escapes cap
    obtain ⟨rest, spots, depths⟩ := ih (c.passOn expr escapes cap)
    rw [List.foldl_cons, List.foldl_cons]
    refine ⟨?_, spots.trans spot, depths.trans depth⟩
    rw [rest, noted, spot, depth]

theorem ledger_openClosure (c : Collector) (expr : Nat) (escapes : Bool) (params : List Nat) :
    (c.openClosure expr escapes params).ledger = c.ledger.enter c.loopDepth (bindingsOf params) :=
  ledger_declareAll { c with
    found := { c.found with escaping := setKey expr escapes c.found.escaping }
    frames := {} :: c.frames } params

theorem closure_follows
    (depth : c.loopDepth = loops.length) (expr : Nat) (escapes : Bool) (params : List Nat)
    (inner : Follows loops as (c.openClosure expr escapes params) d) :
    Follows loops [.closure expr escapes (bindingsOf params) c.spot as] c
      (d.closeClosure c expr escapes) := by
  have opened := ledger_openClosure c expr escapes params
  rw [depth] at opened
  have openedDepth : (c.openClosure expr escapes params).loopDepth = loops.length :=
    (declareAll_depth _ params).trans depth
  have openedStmt : (c.openClosure expr escapes params).stmt = c.stmt :=
    congrArg Spot.stmt (declareAll_spot { c with
      found := { c.found with escaping := setKey expr escapes c.found.escaping }
      frames := {} :: c.frames } params)
  have stmt : d.stmt = c.stmt := (congrArg Spot.stmt inner.spot).trans openedStmt
  have innerDepth : d.loopDepth = loops.length := inner.depth openedDepth
  unfold closeClosure
  refine ⟨?_, ?_, ?_⟩
  · rw [Act.runAll, Act.runAll, Act.run, ← opened, ← inner.ledger, Ledger.leave]
    cases frames : d.frames with
    | nil => simp [ledger, frames]
    | cons f fs =>
      simp only [(passOn_foldl ..).1]
      simp [ledger, frames, spot, stmt, innerDepth]
  · rw [(passOn_foldl ..).2.1]
    simp [spot, stmt]
  · intro _
    rw [(passOn_foldl ..).2.2]
    exact innerDepth

theorem loop_follows {loops : List Nat} {as : List Act} {c d : Collector} (id : Nat)
    (depth : c.loopDepth = loops.length) (inner : Follows (id :: loops) as c.enterLoop d) :
    Follows loops [.loop id as] c d.leaveLoop where
  ledger := by
    rw [Act.runAll, Act.runAll, Act.run]
    exact inner.ledger
  spot := inner.spot
  depth := fun _ => by
    have deeper : d.loopDepth = loops.length + 1 := inner.depth (congrArg (· + 1) depth)
    simp [leaveLoop, deeper]

theorem each_follows (site : LoopSite) (depth : c.loopDepth = loops.length)
    (inner : Follows (site.stmt :: loops) as ((c.addLoop site).enterLoop.declare site.var) d) :
    Follows loops [.each site as] c d.leaveLoop where
  ledger := by
    rw [Act.runAll, Act.runAll, Act.run, ← depth]
    refine inner.ledger.trans (congrArg _ ?_)
    exact ledger_declare (c.addLoop site).enterLoop site.var
  spot := inner.spot.trans (declare_spot _ _)
  depth := fun _ => by
    have deeper : d.loopDepth = loops.length + 1 :=
      inner.depth ((declare_depth _ _).trans (congrArg (· + 1) depth))
    simp [leaveLoop, deeper]

theorem project_follows {loops : List Nat} (c : Collector) (info : ExprInfo) (root : Nat)
    (access : Access) : Follows loops [] c (c.project info root access) := by
  unfold project
  extract_lets typed
  split
  · exact ⟨rfl, rfl, id⟩
  · exact .refl

theorem openClosure_spot (c : Collector) (expr : Nat) (escapes : Bool) (params : List Nat) :
    (c.openClosure expr escapes params).spot = c.spot.inClosure := by
  have stmt := congrArg Spot.stmt (declareAll_spot { c with
    found := { c.found with escaping := setKey expr escapes c.found.escaping }
    frames := {} :: c.frames } params)
  simp only [openClosure, spot, Spot.inClosure, Spot.mk.injEq, and_true]
  exact stmt

theorem openClosure_depth (c : Collector) (expr : Nat) (escapes : Bool) (params : List Nat) :
    (c.openClosure expr escapes params).loopDepth = c.loopDepth := declareAll_depth _ params

theorem Follows.elsewhere {b e : Collector}
    (h : Follows loops as b d) (start : b.ledger = c.ledger) (startDepth : b.loopDepth = c.loopDepth)
    (stop : e.ledger = d.ledger) (stopDepth : e.loopDepth = d.loopDepth) (spot : e.spot = c.spot) :
    Follows loops as c e where
  ledger := by rw [stop, h.ledger, start]
  spot := spot
  depth := fun depth => stopDepth.trans (h.depth (startDepth.trans depth))

end Collector

namespace FuncDecl

def inputs (f : FuncDecl) : List Nat := bindingsOf (f.receiver :: f.params)

def acts (f : FuncDecl) (o : Outlook) : List Act := f.inputs.map .declare ++ Stmt.actsAll o f.body

def outlook (f : FuncDecl) (table : Signatures) : Outlook :=
  { table
    escapingLets :=
      f.closureLets.filter fun b => ((f.collectWith { table }).events b).any Event.transfers }

theorem collect_eq (f : FuncDecl) (table : Signatures) :
    f.collect table = f.collectWith (f.outlook table) := by
  unfold collect outlook
  dsimp only
  split
  · rename_i none
    rw [List.isEmpty_iff.mp none]
  · rfl

end FuncDecl

end Tenure
