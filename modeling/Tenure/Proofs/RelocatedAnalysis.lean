import Tenure.Ownership.Analysis
import Tenure.Proofs.Relocation
import Tenure.Proofs.Rounds

/- Spans decide nothing, and flags of bindings decide about findings only. A module in which they are
   replaced goes through the same rounds, and its uses and duplicates stand at the new spans. When only
   spans are replaced there are as many findings as there were. -/
namespace Tenure

/-! ### Uses -/

section Uses

variable (τ : Range → Range)

def Event.respan (e : Event) : Event := { e with span := τ e.span, stmt := τ e.stmt }

def Usage.respan (u : Usage) : Usage := { u with events := u.events.map (Event.respan τ) }

def Projection.respan (p : Projection) : Projection := { p with span := τ p.span, stmt := τ p.stmt }

def LoopSite.respan (l : LoopSite) : LoopSite := { l with iter := l.iter.respan τ }

def Collection.respan (c : Collection) : Collection :=
  { c with
    usages := c.usages.map (Usage.respan τ)
    projections := c.projections.map (Projection.respan τ)
    loops := c.loops.map (LoopSite.respan τ) }

def Capture.respan (c : Capture) : Capture := { c with span := τ c.span }

def Frame.respan (f : Frame) : Frame := { f with captures := f.captures.map (Capture.respan τ) }

def Collector.respan (c : Collector) : Collector :=
  { c with found := c.found.respan τ, stmt := τ c.stmt, frames := c.frames.map (Frame.respan τ) }

theorem usage_respan_same (u : Usage) : u.respan id = u := by
  rw [Usage.respan, show Event.respan id = id from rfl, List.map_id]

theorem collection_respan_same (c : Collection) : c.respan id = c := by
  have loops : LoopSite.respan id = id := by
    funext l
    rw [LoopSite.respan, expr_respan_same]
    rfl
  rw [Collection.respan, funext usage_respan_same, loops, show Projection.respan id = id from rfl,
    List.map_id', List.map_id, List.map_id]

end Uses

section Collecting

variable {τ : Range → Range}

theorem root_respan (e : Expr) : (e.respan τ).root = e.root := by
  cases e with
  | absent => rfl
  | node info x y args inits body result =>
    have first := root_respan x
    rw [Expr.respan, Expr.root, Expr.root]
    cases kind : info.kind <;> simp [ExprInfo.respan, kind, first]

theorem addEvent_respan (e : Event) (us : List Usage) :
    Collector.addEvent (e.respan τ) (us.map (Usage.respan τ)) =
      (Collector.addEvent e us).map (Usage.respan τ) :=
  ((addEvent_updates e).map (addEvent_updates (e.respan τ)) (Usage.respan τ) (fun _ => rfl) rfl
    (fun u => by simp [Usage.respan]) us).symm

theorem capture_add_respan (c : Capture) (a : Access) : (c.respan τ).add a = (c.add a).respan τ := by
  cases a <;> rfl

theorem addCapture_respan (b : Nat) (a : Access) (span : Range) (cs : List Capture) :
    addCapture b a (τ span) (cs.map (Capture.respan τ)) =
      (addCapture b a span cs).map (Capture.respan τ) :=
  ((addCapture_updates b a span).map (addCapture_updates b a (τ span)) (Capture.respan τ)
    (fun _ => rfl) (capture_add_respan _ a).symm (fun c => (capture_add_respan c a).symm) cs).symm

namespace Collector

variable (c : Collector)

theorem isLocal_respan (b : Nat) : (c.respan τ).isLocal b = c.isLocal b := by
  unfold isLocal
  simp only [respan]
  cases c.frames <;> rfl

theorem declare_respan (b : Nat) : (c.respan τ).declare b = (c.declare b).respan τ := by
  unfold declare
  split
  · rfl
  · have known : (c.respan τ).found.usages.any (·.binding == b) =
        c.found.usages.any (·.binding == b) := by
      simp only [respan, Collection.respan, List.any_map]
      rfl
    simp only [known]
    cases c.found.usages.any (·.binding == b) <;> cases frames : c.frames <;>
      simp [respan, Collection.respan, frames, Usage.respan, Frame.respan]

theorem declareAll_respan (bs : List Nat) :
    (c.respan τ).declareAll bs = (c.declareAll bs).respan τ :=
  List.foldl_hom (respan τ) fun c b => declare_respan c b

theorem record_respan {e f : Event} (same : { f with stmt := τ e.stmt } = e.respan τ) :
    (c.respan τ).record f = (c.record e).respan τ := by
  obtain ⟨_, _, _, _, _, _, _, _, _, _, _, _, _⟩ := e
  obtain ⟨_, _, _, _, _, _, _, _, _, _, _, _, _⟩ := f
  simp only [Event.respan, Event.mk.injEq] at same
  obtain ⟨-, rfl, rfl, rfl, rfl, -, -, -, rfl, rfl, rfl, rfl, rfl⟩ := same
  unfold record
  simp only [respan, Collection.respan, ← addEvent_respan]
  rfl

theorem use_respan (b : Nat) (a : Access) (expr : Nat) (span : Range) (reinit : Bool) :
    (c.respan τ).use b a expr (τ span) reinit = (c.use b a expr span reinit).respan τ := by
  unfold use
  rw [isLocal_respan]
  split
  · rfl
  split
  · exact record_respan c rfl
  · cases frames : c.frames with
    | nil => simp [respan, frames]
    | cons f fs => simp [respan, frames, Frame.respan, Frame.capture, addCapture_respan]

theorem passOn_respan (expr : Nat) (escaping : Bool) (cap : Capture) :
    passOn expr escaping (c.respan τ) (cap.respan τ) = (passOn expr escaping c cap).respan τ := by
  unfold passOn
  rw [show (cap.respan τ).binding = cap.binding from rfl, isLocal_respan]
  split
  · exact record_respan c rfl
  · cases frames : c.frames with
    | nil => simp [respan, frames]
    | cons f fs =>
      simp only [respan, frames, List.map_cons, Frame.respan, Frame.capture, ← addCapture_respan]
      rfl

theorem passOnAll_respan (expr : Nat) (escaping : Bool) (caps : List Capture) :
    (caps.map (Capture.respan τ)).foldl (passOn expr escaping) (c.respan τ) =
      (caps.foldl (passOn expr escaping) c).respan τ := by
  rw [List.foldl_map]
  exact List.foldl_hom (respan τ) fun c cap => passOn_respan c expr escaping cap

theorem openClosure_respan (expr : Nat) (escaping : Bool) (params : List Nat) :
    (c.respan τ).openClosure expr escaping params = (c.openClosure expr escaping params).respan τ := by
  have opened := declareAll_respan (τ := τ) { c with
    found := { c.found with escaping := setKey expr escaping c.found.escaping }
    frames := {} :: c.frames } params
  exact congrArg (fun c : Collector => { c with inReturn := false, loopVar := 0 }) opened

theorem closeClosure_respan (outer : Collector) (expr : Nat) (escaping : Bool) :
    (c.respan τ).closeClosure (outer.respan τ) expr escaping =
      (c.closeClosure outer expr escaping).respan τ := by
  unfold closeClosure
  cases frames : c.frames with
  | nil => simp [respan, frames, Collection.respan]
  | cons f fs =>
    have passed := passOnAll_respan (τ := τ) { c with
      inReturn := outer.inReturn
      loopVar := outer.loopVar
      frames := fs
      found := { c.found with
        captures := setKey expr (f.captures.map (·.binding)) c.found.captures } }
      expr escaping f.captures
    simp only [List.tail_cons] at passed ⊢
    rw [← passed]
    simp only [respan, frames, List.map_cons, List.tail_cons, Frame.respan, List.map_map]
    rfl

theorem project_respan (info : ExprInfo) (root : Nat) (access : Access) :
    (c.respan τ).project (info.respan τ) root access = (c.project info root access).respan τ := by
  unfold project
  rw [isLocal_respan]
  dsimp only
  rw [apply_ite (respan τ)]
  simp only [respan, Collection.respan, List.map_append, List.map_cons, List.map_nil]
  rfl

theorem respan_inReturn : (c.respan τ).inReturn = c.inReturn := rfl

theorem respan_loopVar : (c.respan τ).loopVar = c.loopVar := rfl

theorem at_respan (r : Range) (given : Bool) (v : Nat) :
    ({ c.respan τ with stmt := τ r, inReturn := given, loopVar := v } : Collector) =
      respan τ { c with stmt := r, inReturn := given, loopVar := v } := rfl

theorem mark_respan (v : Nat) :
    ({ c.respan τ with loopVar := v } : Collector) = respan τ { c with loopVar := v } := rfl

theorem enterLoop_respan : (c.respan τ).enterLoop = c.enterLoop.respan τ := rfl

theorem leaveLoop_respan : (c.respan τ).leaveLoop = c.leaveLoop.respan τ := rfl

theorem addLoop_respan (stmt var : Nat) (iter : Expr) :
    (c.respan τ).addLoop ⟨stmt, var, iter.respan τ⟩ = (c.addLoop ⟨stmt, var, iter⟩).respan τ := by
  simp only [addLoop, respan, Collection.respan, List.map_append]
  rfl

end Collector

theorem collectAll_at (o : Outlook) (ss : List Stmt) (c : Collector) (r : Range) :
    Stmt.collectAll o ss { c with stmt := r } = { Stmt.collectAll o ss c with stmt := r } := by
  induction ss generalizing c with
  | nil => rfl
  | cons s ss ih =>
    have first : s.collect o { c with stmt := r } = { s.collect o c with stmt := r } := by
      cases s <;> rfl
    rw [Stmt.collectAll, Stmt.collectAll, first, ih]

theorem place_respan (e : Expr) : ((e.respan τ).info?.map (·.kind.isPlace)).getD false =
    (e.info?.map (·.kind.isPlace)).getD false := by
  rw [Expr.respan_info]
  cases e.info? <;> rfl

mutual
theorem expr_collect_respan (o : Outlook) : ∀ (e : Expr) (a : Access) (c : Collector),
    (e.respan τ).collect o a (c.respan τ) = (e.collect o a c).respan τ
  | .absent _, a, c => by rw [Expr.respan, Expr.collect, Expr.collect]
  | .node info x y args inits body result, a, c => by
    have root := root_respan (τ := τ) (.node info x y args inits body result)
    rw [Expr.respan] at root ⊢
    rw [Expr.collect, Expr.collect, info.respan_kind]
    cases kind : info.kind with
    | ident => exact c.use_respan _ _ _ _ _
    | lit => rfl
    | field =>
      simp only [root, Collector.project_respan, expr_collect_respan o x, apply_ite (Collector.respan τ)]
    | index =>
      simp only [root, Collector.mark_respan, expr_collect_respan o y, Collector.project_respan,
        expr_collect_respan o x, apply_ite (Collector.respan τ), c.respan_loopVar]
    | call =>
      have used := c.use_respan (τ := τ) info.binding .read info.id info.span false
      simp only [info.respan_binding, apply_ite (Collector.respan τ), ← exprs_collect_respan o args, ← used]
      rfl
    | methodCall =>
      simp only [info.respan_target, info.respan_name]
      cases o.table.get? info.target <;>
        simp only [expr_collect_respan o x, exprs_collect_respan o args]
    | binary | range => simp only [expr_collect_respan o x, expr_collect_respan o y]
    | unary => exact expr_collect_respan o x _ c
    | structLit => exact inits_collect_respan o inits c
    | arrayLit => exact exprs_collect_respan o args _ 0 c
    | closure =>
      simp only [info.respan_id, info.respan_params, Collector.openClosure_respan,
        expr_collect_respan o result, stmt_collect_respan o body, Collector.closeClosure_respan]
theorem exprs_collect_respan (o : Outlook) : ∀ (es : List Expr) (a : Nat → Access) (i : Nat)
    (c : Collector), Expr.collectAll o (Expr.respanAll τ es) a i (c.respan τ) =
      (Expr.collectAll o es a i c).respan τ
  | [], a, i, c => by rw [Expr.respanAll, Expr.collectAll, Expr.collectAll]
  | e :: es, a, i, c => by
    rw [Expr.respanAll, Expr.collectAll, Expr.collectAll, expr_collect_respan o e,
      exprs_collect_respan o es]
theorem inits_collect_respan (o : Outlook) : ∀ (is : List FieldInit) (c : Collector),
    FieldInit.collectAll o (FieldInit.respanAll τ is) (c.respan τ) =
      (FieldInit.collectAll o is c).respan τ
  | [], c => by rw [FieldInit.respanAll, FieldInit.collectAll, FieldInit.collectAll]
  | .mk name span value :: is, c => by
    rw [FieldInit.respanAll, FieldInit.collectAll, FieldInit.collectAll,
      expr_collect_respan o value, inits_collect_respan o is]
theorem stmt_collect_respan (o : Outlook) : ∀ (s : Stmt) (c : Collector),
    (s.respan τ).collect o (c.respan τ) = (s.collect o c).respan τ
  | .absent _, c => by rw [Stmt.respan, Stmt.collect, Stmt.collect]
  | .node info target value body orElse, c => by
    have left {d e : Collector} (same : d = e.respan τ) : ({ d with stmt := τ c.stmt } : Collector) =
        Collector.respan τ { e with stmt := c.stmt } := by
      subst same
      rfl
    rw [Stmt.respan, Stmt.collect, Stmt.collect, info.respan_kind]
    simp only [info.respan_binding, info.respan_op, info.respan_span, Expr.respan_isKind,
      place_respan, c.respan_inReturn, c.respan_loopVar, c.at_respan]
    refine left ?_
    cases kind : info.kind with
    | letVar => simp only [expr_collect_respan o value, Collector.declare_respan]
    | assign =>
      simp only [Expr.respan_info, expr_collect_respan o value, expr_collect_respan o target]
      cases target.info? with
      | none => rfl
      | some t =>
        simp only [Option.map_some, t.respan_kind, ← Collector.use_respan,
          apply_ite (Collector.respan τ)]
        rfl
    | eval => exact expr_collect_respan o value ..
    | give =>
      simp only [expr_collect_respan o value]
      rfl
    | branch =>
      simp only [expr_collect_respan o value, stmts_collect_respan o body,
        stmt_collect_respan o orElse]
    | whileLoop =>
      simp only [Collector.enterLoop_respan, expr_collect_respan o value,
        stmts_collect_respan o body, Collector.leaveLoop_respan]
    | forLoop =>
      simp only [info.respan_id, expr_collect_respan o value, Collector.mark_respan,
        ← apply_ite (Collector.respan τ), Collector.addLoop_respan, Collector.enterLoop_respan,
        Collector.declare_respan, stmts_collect_respan o body, Collector.leaveLoop_respan]
    | block => exact stmts_collect_respan o body _
    | leave | again => rfl
theorem stmts_collect_respan (o : Outlook) : ∀ (ss : List Stmt) (c : Collector),
    Stmt.collectAll o (Stmt.respanAll τ ss) (c.respan τ) = (Stmt.collectAll o ss c).respan τ
  | [], c => by rw [Stmt.respanAll, Stmt.collectAll, Stmt.collectAll]
  | s :: ss, c => by
    rw [Stmt.respanAll, Stmt.collectAll, Stmt.collectAll, stmt_collect_respan o s,
      stmts_collect_respan o ss]
end

theorem collectWith_respan (f : FuncDecl) (o : Outlook) :
    (f.respan τ).collectWith o = (f.collectWith o).respan τ := by
  -- the receiver and the parameters are declared outside of all statements
  let stay (c : Collector) : Collector := { c with stmt := τ Range.zero }
  have step : ∀ (c : Collector) (b : Nat), (stay c).declare b = stay (c.declare b) := by
    intro c b
    unfold Collector.declare
    split <;> rfl
  have start : f.start.respan τ = stay f.start := by
    have opened : Collector.respan τ {} = stay {} := rfl
    rw [FuncDecl.start, ← Collector.declareAll_respan, opened]
    exact List.foldl_hom stay step
  have whole := stmts_collect_respan (τ := τ) o f.body f.start
  rw [start, collectAll_at] at whole
  exact congrArg Collector.found whole

theorem closureLets_respan (f : FuncDecl) : (f.respan τ).closureLets = f.closureLets := by
  unfold FuncDecl.closureLets
  rw [FuncDecl.respan, stmts_nodes_respan, List.filterMap_map]
  refine congrArg (fun which => List.filterMap which (Stmt.nodesAll f.body)) (funext fun n => ?_)
  cases n with
  | expr e => rfl
  | stmt s =>
    cases s with
    | absent => rfl
    | node info target value body orElse =>
      simp only [Function.comp_apply, Node.respan, Stmt.respan, Expr.respan_isKind]
      rfl

theorem usage_respan (c : Collection) (b : Nat) :
    (c.respan τ).usage? b = (c.usage? b).map (Usage.respan τ) := by
  rw [Collection.usage?, Collection.usage?, Collection.respan, List.find?_map]
  rfl

theorem events_respan (c : Collection) (b : Nat) :
    (c.respan τ).events b = (c.events b).map (Event.respan τ) := by
  rw [Collection.events, Collection.events, usage_respan]
  cases c.usage? b <;> rfl

theorem collect_respan (f : FuncDecl) (table : Signatures) :
    (f.respan τ).collect table = (f.collect table).respan τ := by
  unfold FuncDecl.collect
  simp only [collectWith_respan, closureLets_respan, events_respan, List.any_map]
  rw [apply_ite (Collection.respan τ)]
  rfl

end Collecting

/-! ### Outcomes -/

def DuplicatePoint.respan (τ : Range → Range) (p : DuplicatePoint) : DuplicatePoint :=
  { p with span := τ p.span, stmt := τ p.stmt }

inductive Provision.Moved (τ : Range → Range) : Provision → Provision → Prop where
  | nothing : Moved τ .nothing .nothing
  | duplicate (p : DuplicatePoint) : Moved τ (.duplicate p) (.duplicate (p.respan τ))
  | refused (d e : Diagnostic) : Moved τ (.refused d) (.refused e)

structure Outcome (τ : Range → Range) (F : List Diagnostic → List Diagnostic → Prop)
    (ps qs : List DuplicatePoint) (ds es : List Diagnostic) : Prop where
  points : qs = ps.map (DuplicatePoint.respan τ)
  findings : F ds es

def AsMany (ds es : List Diagnostic) : Prop := es.length = ds.length

structure Settlement.Moved (τ : Range → Range) (F : List Diagnostic → List Diagnostic → Prop)
    (s t : Settlement) : Prop where
  mode : t.mode = s.mode
  mutated : t.mutated = s.mutated
  outcome : Outcome τ F s.points t.points s.findings t.findings

structure Verdict.Moved (τ : Range → Range) (F : List Diagnostic → List Diagnostic → Prop)
    (v w : Verdict) : Prop where
  modes : w.modes = v.modes
  mutated : w.mutated = v.mutated
  adaptors : w.adaptors = v.adaptors
  outcome : Outcome τ F v.points w.points v.findings w.findings

section Resolving

variable {τ : Range → Range}

theorem outcome_of_moved {xs ys : List Provision} (moved : List.Forall₂ (Provision.Moved τ) xs ys) :
    Outcome τ AsMany (xs.filterMap Provision.point?) (ys.filterMap Provision.point?)
      (xs.filterMap Provision.finding?) (ys.filterMap Provision.finding?) := by
  induction moved with
  | nil => exact ⟨rfl, rfl⟩
  | cons head _ ih =>
    cases head with
    | nothing => exact ih
    | duplicate p => exact ⟨congrArg (p.respan τ :: ·) ih.points, ih.findings⟩
    | refused d e => exact ⟨ih.points, congrArg (· + 1) ih.findings⟩

theorem nextUse_respan (es : List Event) :
    nextUse (es.map (Event.respan τ)) = (nextUse es).map (Event.respan τ) := by
  cases es with
  | nil => rfl
  | cons e es =>
    rw [List.map_cons, nextUse, nextUse, apply_ite (Option.map (Event.respan τ))]
    rfl

theorem nextMutation_respan (es : List Event) :
    nextMutation (es.map (Event.respan τ)) = (nextMutation es).map (Event.respan τ) := by
  induction es with
  | nil => rfl
  | cons e es ih =>
    rw [List.map_cons, nextMutation, nextMutation, ih, apply_ite (Option.map (Event.respan τ)),
      apply_ite (Option.map (Event.respan τ))]
    rfl

theorem provide_respan (b : Binding) (declLoop : Nat) (e : Event) (later : List Event) :
    (provide b declLoop e later).Moved τ
      (provide (b.respan τ) declLoop (e.respan τ) (later.map (Event.respan τ))) := by
  have same : (e.respan τ).transfers = e.transfers := rfl
  have returned : (e.respan τ).inReturn = e.inReturn := rfl
  have depth : (e.respan τ).loopDepth = e.loopDepth := rfl
  have kind : (e.respan τ).kind = e.kind := rfl
  have ty : (b.respan τ).ty = b.ty := rfl
  have change : (if e.kind = .capture then (nextMutation later).map (Event.respan τ) else none) =
      (if e.kind = .capture then nextMutation later else none).map (Event.respan τ) := by
    rw [apply_ite (Option.map (Event.respan τ))]
    rfl
  unfold provide
  rw [nextUse_respan, nextMutation_respan, same, returned, depth, kind, ty]
  simp only [Option.isSome_map, change]
  split
  · exact .nothing
  generalize (if (nextUse later).isSome = true then some Reason.laterUse
    else if declLoop < e.loopDepth then some Reason.loopCarried else none) = reason
  cases reason with
  | none => exact .nothing
  | some reason =>
    cases if e.kind = .capture then nextMutation later else none with
    | some change => exact .refused _ _
    | none =>
      simp only [Option.map_none]
      split
      · exact .duplicate _
      · exact .refused _ _

theorem provisions_respan (b : Binding) (declLoop : Nat) (es : List Event) :
    List.Forall₂ (Provision.Moved τ) (provisions b declLoop es)
      (provisions (b.respan τ) declLoop (es.map (Event.respan τ))) := by
  induction es with
  | nil => exact .nil
  | cons e es ih => exact .cons (provide_respan b declLoop e es) ih

theorem find_respan {p : Event → Bool} (same : ∀ e, p (e.respan τ) = p e) (es : List Event) :
    (es.map (Event.respan τ)).find? p = (es.find? p).map (Event.respan τ) := by
  rw [List.find?_map]
  congr 1
  exact congrArg (fun q => es.find? q) (funext same)

theorem settle_respan (b : Binding) (u : Usage) :
    (b.settle u).Moved τ AsMany ((b.respan τ).settle (u.respan τ)) := by
  have change := find_respan (τ := τ) (p := Event.isMutation) (fun _ => rfl) u.events
  have transfer := find_respan (τ := τ) (p := Event.transfers) (fun _ => rfl) u.events
  have illegal := find_respan (τ := τ) (p := fun e => e.isMutation && !b.allows e) (fun _ => rfl)
    u.events
  have outcome := outcome_of_moved (provisions_respan (τ := τ) b u.declLoop u.events)
  have events : (u.respan τ).events = u.events.map (Event.respan τ) := rfl
  have marker : (b.respan τ).marker = b.marker := rfl
  have allows : (b.respan τ).allows = b.allows := rfl
  have loop : (u.respan τ).declLoop = u.declLoop := rfl
  have ty : (b.respan τ).ty = b.ty := rfl
  unfold Binding.settle
  simp only [events, marker, allows, loop, ty, change, transfer, illegal, Option.isSome_map,
    Option.map_map]
  have lengths {f g : Event → Diagnostic} (x : Option Event) :
      (x.map f).toList.length = (x.map g).toList.length := by
    cases x <;> rfl
  split
  · refine ⟨rfl, rfl, rfl, ?_⟩
    rw [AsMany, List.length_append, List.length_append]
    exact congr (congrArg _ (lengths _)) (lengths _)
  · exact ⟨rfl, rfl, rfl, lengths _⟩
  · split
    · exact ⟨rfl, rfl, rfl, lengths _⟩
    split
    · refine ⟨rfl, rfl, outcome.points, ?_⟩
      rw [AsMany, List.length_append, List.length_append, outcome.findings]
      exact congrArg (· + _) (lengths _)
    · exact ⟨rfl, rfl, rfl, lengths _⟩

theorem parts_moved {m n : Module} {flag : Nat → Bool → Bool}
    (bindings : ∀ b, n.binding? b = (m.binding? b).map (Binding.redeclare τ (flag b)))
    (ps : List Projection) :
    List.Forall₂ (Provision.Moved τ) (ps.map (Projection.provide m))
      ((ps.map (Projection.respan τ)).map (Projection.provide n)) := by
  induction ps with
  | nil => exact .nil
  | cons p ps ih =>
    refine .cons ?_ ih
    unfold Projection.provide
    rw [bindings, show (p.respan τ).root = p.root from rfl,
      show (p.respan τ).ty = p.ty from rfl, Option.map_map]
    split
    · exact .duplicate _
    · exact .refused _ _

/-- The same module with other spans and other flags of its bindings. What this does to the findings
holds of all findings when it holds of those about one binding. -/
structure Module.Reworked (τ : Range → Range) (F : List Diagnostic → List Diagnostic → Prop)
    (flag : Nat → Bool → Bool) (m n : Module) : Prop where
  path : n.path = m.path
  structs : n.structs = m.structs.map (StructDecl.respan τ)
  funcs : n.funcs = m.funcs.map (FuncDecl.respan τ)
  bindings : ∀ b, n.binding? b = (m.binding? b).map (Binding.redeclare τ (flag b))
  none : F [] []
  append : F as cs → F bs ds → F (as ++ bs) (cs ++ ds)
  sorted : F as bs → F (as.mergeSort fun d e => !e.primary.before d.primary)
    (bs.mergeSort fun d e => !e.primary.before d.primary)
  settle : m.binding? b = some binding → ∀ u : Usage,
    (binding.settle u).Moved τ F ((binding.redeclare τ (flag b)).settle (u.respan τ))
  parts : ∀ ps : List Projection, F ((ps.map (Projection.provide m)).filterMap Provision.finding?)
    (((ps.map (Projection.respan τ)).map (Projection.provide n)).filterMap Provision.finding?)

section Module

variable {F : List Diagnostic → List Diagnostic → Prop} {flag : Nat → Bool → Bool} {m n : Module}
  {v w : Verdict} (reworked : m.Reworked τ F flag n)

include reworked

theorem Verdict.Moved.settle (moved : v.Moved τ F w) (c : Collection) (b : Nat) :
    (v.settle m c b).Moved τ F (w.settle n (c.respan τ) b) := by
  unfold Verdict.settle
  rw [reworked.bindings, usage_respan]
  cases known : m.binding? b with
  | none => exact moved
  | some binding =>
    have used : ((c.usage? b).map (Usage.respan τ)).getD { binding := b } =
        ((c.usage? b).getD { binding := b }).respan τ := by
      cases c.usage? b <;> rfl
    have settled := reworked.settle known ((c.usage? b).getD { binding := b })
    simp only [Option.map_some, used]
    refine ⟨?_, ?_, moved.adaptors, ?_, reworked.append moved.outcome.findings settled.outcome.findings⟩
    · simp only [Verdict.add, moved.modes, settled.mode]
    · simp only [Verdict.add, moved.mutated, settled.mutated]
    · simp only [Verdict.add, moved.outcome.points, settled.outcome.points, List.map_append]

omit reworked in
theorem retarget_respan (c : Collection) (b : Nat) :
    (c.respan τ).retarget b = (c.retarget b).respan τ := by
  have event (e : Event) : Event.retarget b (e.respan τ) = (Event.retarget b e).respan τ := by
    unfold Event.retarget
    rw [apply_ite (Event.respan τ)]
    rfl
  simp only [Collection.retarget, Collection.respan, List.map_map]
  congr 2
  funext u
  simp only [Function.comp_apply, Usage.respan, List.map_map]
  congr 2
  funext e
  exact event e

theorem adaptor_respan (l : LoopSite) (mode : Mode) :
    (l.respan τ).adaptor n mode = l.adaptor m mode := by
  unfold LoopSite.adaptor
  rw [reworked.bindings, show (l.respan τ).var = l.var from rfl,
    show (l.respan τ).iter = l.iter.respan τ from rfl, Expr.respan_isKind, Option.map_map]
  rfl

theorem resolveLoop_moved (l : LoopSite) {c : Collection} (moved : v.Moved τ F w) :
    (resolveLoop n (l.respan τ) (c.respan τ, w)).1 = (resolveLoop m l (c, v)).1.respan τ ∧
      (resolveLoop m l (c, v)).2.Moved τ F (resolveLoop n (l.respan τ) (c.respan τ, w)).2 := by
  have settled := moved.settle reworked c l.var
  have mode : (w.settle n (c.respan τ) l.var).mode l.var = (v.settle m c l.var).mode l.var := by
    rw [Verdict.mode, Verdict.mode, settled.modes]
  have var : (l.respan τ).var = l.var := rfl
  unfold resolveLoop
  simp only [var, mode, adaptor_respan reworked]
  constructor
  · rw [retarget_respan, apply_ite (Collection.respan τ)]
  · exact ⟨settled.modes, settled.mutated, congrArg (setKey l.stmt _) settled.adaptors,
      settled.outcome⟩

theorem loops_moved (ls : List LoopSite) (c : Collection) :
    ((ls.map (LoopSite.respan τ)).foldr (resolveLoop n) (c.respan τ, {})).1 =
        (ls.foldr (resolveLoop m) (c, {})).1.respan τ ∧
      (ls.foldr (resolveLoop m) (c, {})).2.Moved τ F
        ((ls.map (LoopSite.respan τ)).foldr (resolveLoop n) (c.respan τ, {})).2 := by
  induction ls with
  | nil => exact ⟨rfl, rfl, rfl, rfl, rfl, reworked.none⟩
  | cons l ls ih =>
    have step := resolveLoop_moved reworked l (c := (ls.foldr (resolveLoop m) (c, {})).1) ih.2
    rw [← ih.1] at step
    exact step

theorem settleAll_moved (c : Collection) (us : List Usage) (moved : v.Moved τ F w) :
    (us.foldl (fun v u => if (v.modes.lookup u.binding).isSome then v else v.settle m c u.binding)
        v).Moved τ F
      ((us.map (Usage.respan τ)).foldl (fun v u =>
        if (v.modes.lookup u.binding).isSome then v else v.settle n (c.respan τ) u.binding) w) := by
  induction us generalizing v w with
  | nil => exact moved
  | cons u us ih =>
    rw [List.map_cons, List.foldl_cons, List.foldl_cons]
    apply ih
    rw [moved.modes, show (u.respan τ).binding = u.binding from rfl]
    split
    · exact moved
    · exact moved.settle reworked c u.binding

theorem resolve_moved (c : Collection) :
    ((c.respan τ).resolve n).1 = (c.resolve m).1.respan τ ∧
      (c.resolve m).2.Moved τ F ((c.respan τ).resolve n).2 := by
  have loops := loops_moved reworked c.loops c
  unfold Collection.resolve
  rw [show (c.respan τ).loops = c.loops.map (LoopSite.respan τ) from rfl]
  generalize c.loops.foldr (resolveLoop m) (c, {}) = before at loops ⊢
  generalize (c.loops.map (LoopSite.respan τ)).foldr (resolveLoop n) (c.respan τ, {}) = behind
    at loops ⊢
  obtain ⟨c, v⟩ := before
  obtain ⟨d, w⟩ := behind
  obtain ⟨rfl, moved⟩ := loops
  have settled := settleAll_moved reworked c c.usages moved
  have parts := outcome_of_moved (parts_moved reworked.bindings c.projections)
  have points := congrArg₂ (· ++ ·) settled.outcome.points parts.points
  dsimp only at points
  rw [← List.map_append] at points
  refine ⟨rfl, settled.modes, settled.mutated, settled.adaptors, ?_, ?_⟩
  · refine (congrArg (List.mergeSort · _) points).trans (List.map_mergeSort ?_).symm
    exact fun _ _ _ _ => rfl
  · exact reworked.sorted (reworked.append settled.outcome.findings (reworked.parts c.projections))

end Module

end Resolving

/-! ### Rounds -/

structure FuncAnalysis.Moved (τ : Range → Range) (F : List Diagnostic → List Diagnostic → Prop)
    (f g : FuncAnalysis) : Prop where
  func : g.func = f.func.respan τ
  uses : g.uses = f.uses.respan τ
  verdict : f.verdict.Moved τ F g.verdict

structure Round.Moved (τ : Range → Range) (F : List Diagnostic → List Diagnostic → Prop)
    (r s : Round) : Prop where
  table : s.table = r.table
  funcs : List.Forall₂ (FuncAnalysis.Moved τ F) r.funcs s.funcs

section Rounds

variable {τ : Range → Range} {F : List Diagnostic → List Diagnostic → Prop} {flag : Nat → Bool → Bool}
  {m n : Module}

theorem FuncAnalysis.Moved.peers {f g : FuncAnalysis} (moved : f.Moved τ F g) : f.Peers g := by
  refine ⟨?_, ?_, ?_, moved.verdict.modes⟩ <;> rw [moved.func] <;> rfl

theorem Round.Moved.next {r s : Round} (moved : r.Moved τ F s) : s.next = r.next := by
  rw [Round.next, Round.next, moved.table]
  exact advance_peers (moved.funcs.imp fun _ _ same => same.peers) r.table

variable (reworked : m.Reworked τ F flag n)

include reworked

theorem run_moved (table : Signatures) : (Round.run m table).Moved τ F (Round.run n table) := by
  have kept : n.funcs.filter (!·.isExtern) =
      (m.funcs.filter (!·.isExtern)).map (FuncDecl.respan τ) := by
    rw [reworked.funcs, List.filter_map]
    rfl
  refine ⟨rfl, ?_⟩
  rw [Round.run, Round.run, kept, List.map_map, List.forall₂_map_left_iff, List.forall₂_map_right_iff]
  refine List.forall₂_same.mpr fun f _ => ?_
  obtain ⟨uses, verdict⟩ := resolve_moved reworked (f.collect table)
  rw [← collect_respan] at uses verdict
  exact ⟨rfl, uses, verdict⟩

theorem seed_respan : Signatures.seed n = Signatures.seed m := by
  have mode (isExtern : Bool) (b : Nat) :
      Signatures.seedMode isExtern (n.binding? b) = Signatures.seedMode isExtern (m.binding? b) := by
    rw [reworked.bindings]
    cases m.binding? b <;> rfl
  have step (table : Signatures) (f : FuncDecl) :
      table.insert (f.respan τ).qualified (Signatures.seedOf n (f.respan τ)) =
        table.insert f.qualified (Signatures.seedOf m f) := by
    unfold Signatures.seedOf
    simp only [mode]
    rfl
  unfold Signatures.seed
  rw [reworked.funcs, List.foldl_map]
  simp only [step]

theorem history_moved (limit : Int) :
    List.Forall₂ (Round.Moved τ F) (Analysis.of m limit).history (Analysis.of n limit).history := by
  have bound : Analysis.limitOf n limit = Analysis.limitOf m limit := by
    unfold Analysis.limitOf Analysis.roundBound
    rw [reworked.funcs, List.foldl_map]
    rfl
  unfold Analysis.of
  dsimp only
  rw [seed_respan reworked, bound]
  exact rounds_in_step (run_moved reworked) Round.Moved.next _ _

theorem last_moved (limit : Int) : (Analysis.of m limit).last.Moved τ F (Analysis.of n limit).last :=
  last_in_step (history_moved reworked limit) ⟨rfl, .nil⟩

end Rounds

theorem respan_reworked (τ : Range → Range) (m : Module) (file : Nat) :
    m.Reworked τ AsMany (fun _ => id) (m.respan τ file) where
  path := rfl
  structs := rfl
  funcs := rfl
  bindings := m.respan_binding τ file
  none := rfl
  append {as cs bs ds} first second := by
    rw [AsMany, List.length_append, List.length_append, first, second]
  sorted {as bs} same := by rwa [AsMany, List.length_mergeSort, List.length_mergeSort]
  settle {b binding} _ u := settle_respan binding u
  parts ps :=
    (outcome_of_moved (@parts_moved τ m _ (fun _ => id) (m.respan_binding τ file) ps)).findings

theorem findings_moved {τ : Range → Range} (m : Module) (file : Nat) :
    (Analysis.of (m.respan τ file)).findings.length = (Analysis.of m).findings.length := by
  have funcs := (last_moved (respan_reworked τ m file) 0).funcs
  unfold Analysis.findings Analysis.funcs
  generalize (Analysis.of m).last.funcs = fs at funcs ⊢
  generalize (Analysis.of (m.respan τ file)).last.funcs = gs at funcs ⊢
  induction funcs with
  | nil => rfl
  | cons head _ ih =>
    rw [List.flatMap_cons, List.flatMap_cons, List.length_append, List.length_append, ih,
      head.verdict.outcome.findings]

end Tenure
