import Tenure.Program.Accept
import Tenure.Program.Walk
import Tenure.Proofs.Renaming

/- Programs with other spans. A document is accepted whatever number its file has, and the number
   shows in the spans only. -/
namespace Tenure

section Respan

variable (τ : Range → Range)

def ExprInfo.respan (info : ExprInfo) : ExprInfo := { info with span := τ info.span }

def StmtInfo.respan (info : StmtInfo) : StmtInfo := { info with span := τ info.span }

mutual
def Expr.respan : Expr → Expr
  | .absent id => .absent id
  | .node info x y args inits body result =>
    .node (info.respan τ) x.respan y.respan (Expr.respanAll args) (FieldInit.respanAll inits)
      body.respan result.respan
def Expr.respanAll : List Expr → List Expr
  | [] => []
  | e :: es => e.respan :: Expr.respanAll es
def FieldInit.respanAll : List FieldInit → List FieldInit
  | [] => []
  | .mk name span value :: is => .mk name (τ span) value.respan :: FieldInit.respanAll is
def Stmt.respan : Stmt → Stmt
  | .absent id => .absent id
  | .node info target value body orElse =>
    .node (info.respan τ) target.respan value.respan (Stmt.respanAll body) orElse.respan
def Stmt.respanAll : List Stmt → List Stmt
  | [] => []
  | s :: ss => s.respan :: Stmt.respanAll ss
end

def Binding.respan (b : Binding) : Binding := { b with span := τ b.span }

def Binding.redeclare (flag : Bool → Bool) (b : Binding) : Binding :=
  { b with span := τ b.span, mutable := flag b.mutable }

def Field.respan (f : Field) : Field := { f with span := τ f.span }

def StructDecl.respan (s : StructDecl) : StructDecl :=
  { s with span := τ s.span, fields := s.fields.map (Field.respan τ) }

def FuncDecl.respan (f : FuncDecl) : FuncDecl :=
  { f with span := τ f.span, body := Stmt.respanAll τ f.body }

/-- The module with all its spans replaced, as one of the file `file`. -/
def Module.respan (file : Nat) (m : Module) : Module :=
  { m with
    file
    structs := m.structs.map (StructDecl.respan τ)
    funcs := m.funcs.map (FuncDecl.respan τ)
    exprs := m.exprs.map (Expr.respan τ)
    stmts := m.stmts.map (Stmt.respan τ)
    bindings := m.bindings.map (Binding.respan τ) }

section Info

variable (info : ExprInfo)

@[simp] theorem ExprInfo.respan_kind : (info.respan τ).kind = info.kind := rfl
@[simp] theorem ExprInfo.respan_binding : (info.respan τ).binding = info.binding := rfl
@[simp] theorem ExprInfo.respan_target : (info.respan τ).target = info.target := rfl
@[simp] theorem ExprInfo.respan_name : (info.respan τ).name = info.name := rfl
@[simp] theorem ExprInfo.respan_params : (info.respan τ).params = info.params := rfl
@[simp] theorem ExprInfo.respan_ty : (info.respan τ).ty = info.ty := rfl
@[simp] theorem ExprInfo.respan_op : (info.respan τ).op = info.op := rfl
@[simp] theorem ExprInfo.respan_id : (info.respan τ).id = info.id := rfl
@[simp] theorem ExprInfo.respan_span : (info.respan τ).span = τ info.span := rfl

end Info

section Info

variable (info : StmtInfo)

@[simp] theorem StmtInfo.respan_kind : (info.respan τ).kind = info.kind := rfl
@[simp] theorem StmtInfo.respan_binding : (info.respan τ).binding = info.binding := rfl
@[simp] theorem StmtInfo.respan_op : (info.respan τ).op = info.op := rfl
@[simp] theorem StmtInfo.respan_id : (info.respan τ).id = info.id := rfl
@[simp] theorem StmtInfo.respan_span : (info.respan τ).span = τ info.span := rfl

end Info

@[simp] theorem Expr.respan_id (e : Expr) : (e.respan τ).id = e.id := by
  cases e <;> rfl

@[simp] theorem Expr.respan_info (e : Expr) : (e.respan τ).info? = e.info?.map (ExprInfo.respan τ) := by
  cases e <;> rfl

@[simp] theorem Stmt.respan_info (s : Stmt) : (s.respan τ).info? = s.info?.map (StmtInfo.respan τ) := by
  cases s <;> rfl

@[simp] theorem Expr.respan_isKind (k : ExprKind) (e : Expr) :
    (e.respan τ).isKind k = e.isKind k := by
  cases e <;> rfl

@[simp] theorem Expr.respan_ty (e : Expr) : (e.respan τ).ty = e.ty := by
  cases e <;> rfl

@[simp] theorem Module.respan_binding (file : Nat) (m : Module) (b : Nat) :
    (m.respan τ file).binding? b = (m.binding? b).map (Binding.respan τ) := by
  unfold Module.binding?
  split
  · rfl
  · exact Array.getElem?_map

end Respan

section Same

mutual
theorem expr_respan_same : ∀ e : Expr, e.respan id = e
  | .absent _ => by rw [Expr.respan]
  | .node info x y args inits body result => by
    rw [Expr.respan, expr_respan_same x, expr_respan_same y, exprs_respan_same args,
      inits_respan_same inits, stmt_respan_same body, expr_respan_same result]
    rfl
theorem exprs_respan_same : ∀ es : List Expr, Expr.respanAll id es = es
  | [] => by rw [Expr.respanAll]
  | e :: es => by rw [Expr.respanAll, expr_respan_same e, exprs_respan_same es]
theorem inits_respan_same : ∀ is : List FieldInit, FieldInit.respanAll id is = is
  | [] => by rw [FieldInit.respanAll]
  | .mk _ _ value :: is => by
    rw [FieldInit.respanAll, expr_respan_same value, inits_respan_same is]
    rfl
theorem stmt_respan_same : ∀ s : Stmt, s.respan id = s
  | .absent _ => by rw [Stmt.respan]
  | .node info target value body orElse => by
    rw [Stmt.respan, expr_respan_same target, expr_respan_same value, stmts_respan_same body,
      stmt_respan_same orElse]
    rfl
theorem stmts_respan_same : ∀ ss : List Stmt, Stmt.respanAll id ss = ss
  | [] => by rw [Stmt.respanAll]
  | s :: ss => by rw [Stmt.respanAll, stmt_respan_same s, stmts_respan_same ss]
end

theorem func_respan_same (f : FuncDecl) : f.respan id = f := by
  rw [FuncDecl.respan, stmts_respan_same]
  rfl

end Same

/-! ### Nodes -/

def Node.respan (τ : Range → Range) : Node → Node
  | .expr e => .expr (e.respan τ)
  | .stmt s => .stmt (s.respan τ)

section Nodes

variable {τ : Range → Range}

mutual
theorem expr_nodes_respan : ∀ e : Expr, (e.respan τ).nodes = e.nodes.map (Node.respan τ)
  | .absent _ => by rw [Expr.respan, Expr.nodes]; rfl
  | .node info x y args inits body result => by
    rw [Expr.respan, Expr.nodes, Expr.nodes, List.map_cons, Node.respan, Expr.respan, info.respan_kind]
    cases info.kind <;> simp only [expr_nodes_respan x, expr_nodes_respan y, exprs_nodes_respan args,
      inits_nodes_respan inits, stmt_nodes_respan body, expr_nodes_respan result, List.map_append,
      List.map_nil]
theorem exprs_nodes_respan : ∀ es : List Expr,
    Expr.nodesAll (Expr.respanAll τ es) = (Expr.nodesAll es).map (Node.respan τ)
  | [] => by rw [Expr.respanAll, Expr.nodesAll]; rfl
  | e :: es => by
    rw [Expr.respanAll, Expr.nodesAll, Expr.nodesAll, List.map_append, expr_nodes_respan e,
      exprs_nodes_respan es]
theorem inits_nodes_respan : ∀ is : List FieldInit,
    FieldInit.nodesAll (FieldInit.respanAll τ is) = (FieldInit.nodesAll is).map (Node.respan τ)
  | [] => by rw [FieldInit.respanAll, FieldInit.nodesAll]; rfl
  | .mk name span value :: is => by
    rw [FieldInit.respanAll, FieldInit.nodesAll, FieldInit.nodesAll, List.map_append,
      expr_nodes_respan value, inits_nodes_respan is]
theorem stmt_nodes_respan : ∀ s : Stmt, (s.respan τ).nodes = s.nodes.map (Node.respan τ)
  | .absent _ => by rw [Stmt.respan, Stmt.nodes]; rfl
  | .node info target value body orElse => by
    rw [Stmt.respan, Stmt.nodes, Stmt.nodes, List.map_cons, Node.respan, Stmt.respan, info.respan_kind]
    cases info.kind <;> simp only [expr_nodes_respan target, expr_nodes_respan value,
      stmts_nodes_respan body, stmt_nodes_respan orElse, List.map_append]
theorem stmts_nodes_respan : ∀ ss : List Stmt,
    Stmt.nodesAll (Stmt.respanAll τ ss) = (Stmt.nodesAll ss).map (Node.respan τ)
  | [] => by rw [Stmt.respanAll, Stmt.nodesAll]; rfl
  | s :: ss => by
    rw [Stmt.respanAll, Stmt.nodesAll, Stmt.nodesAll, List.map_append, stmt_nodes_respan s,
      stmts_nodes_respan ss]
end

end Nodes

/-! ### Acceptance -/

namespace Document

variable {ρ : Nat → Nat} {α β : Type}

def Scope.rename (ρ : Nat → Nat) (scope : Scope) : Scope :=
  { scope with
    file := ρ scope.file, bindings := scope.bindings.map (Binding.respan (Range.rename ρ)) }

def Arena.rename (ρ : Nat → Nat) (a : Arena) : Arena :=
  { exprs := a.exprs.map (Expr.respan (Range.rename ρ))
    stmts := a.stmts.map (Stmt.respan (Range.rename ρ)) }

/-- `y` accepts what `x` accepts, under other numbers. -/
def Follows (ρ : Nat → Nat) (f : α → α) (x y : Accepting α) : Prop :=
  ∀ a, y (a.rename ρ) = (x a).map fun r => (f r.1, r.2.rename ρ)

theorem follows_pure {f : α → α} {s t : α} (same : f s = t) :
    Follows ρ f (pure s : Accepting α) (pure t) := by
  intro a
  rw [← same]
  rfl

theorem follows_lift (x : Except Malformed α) : Follows ρ id (liftM x : Accepting α) (liftM x) := by
  intro a
  cases x <;> rfl

theorem follows_throw {f : α → α} (e : Malformed) :
    Follows ρ f (throw e : Accepting α) (throw e) := fun _ => rfl

theorem follows_bind {f : α → α} {g : β → β} {x y : Accepting α} {k l : α → Accepting β}
    (first : Follows ρ f x y) (rest : ∀ t, Follows ρ g (k t) (l (f t))) :
    Follows ρ g (x >>= k) (y >>= l) := by
  intro a
  have start := first a
  change (y (a.rename ρ)).bind _ = _
  rw [start]
  change _ = ((x a).bind _).map _
  cases x a with
  | error e => rfl
  | ok r => exact rest r.1 r.2

theorem acceptBindings_rename (scope : Scope) (ids : List Nat) :
    acceptBindings (scope.rename ρ) ids = acceptBindings scope ids := by
  induction ids with
  | nil => rfl
  | cons id ids ih =>
    rw [acceptBindings, acceptBindings, ih]
    rfl

theorem identTy_rename (scope : Scope) (kind : ExprKind) (binding : Nat) (ty : Ty) :
    identTy (scope.rename ρ) kind binding ty = identTy scope kind binding ty := by
  unfold identTy
  split
  · simp only [Scope.rename, Array.getElem?_map, Option.map_map]
    rfl
  · rfl

theorem finishExpr_follows (info : ExprInfo) (x y : Tenure.Expr) (args : List Tenure.Expr)
    (inits : List FieldInit) (body : Tenure.Stmt) (result : Tenure.Expr) :
    Follows ρ (Expr.respan (Range.rename ρ)) (finishExpr info x y args inits body result)
      (finishExpr (info.respan (Range.rename ρ)) (x.respan (Range.rename ρ))
        (y.respan (Range.rename ρ)) (Expr.respanAll (Range.rename ρ) args)
        (FieldInit.respanAll (Range.rename ρ) inits) (body.respan (Range.rename ρ))
        (result.respan (Range.rename ρ))) := by
  intro a
  simp [finishExpr, Arena.rename, Expr.respan, ExprInfo.respan, Except.map]

theorem finishStmt_follows (info : StmtInfo) (target value : Tenure.Expr) (body : List Tenure.Stmt)
    (orElse : Tenure.Stmt) :
    Follows ρ (Stmt.respan (Range.rename ρ)) (finishStmt info target value body orElse)
      (finishStmt (info.respan (Range.rename ρ)) (target.respan (Range.rename ρ))
        (value.respan (Range.rename ρ)) (Stmt.respanAll (Range.rename ρ) body)
        (orElse.respan (Range.rename ρ))) := by
  intro a
  simp [finishStmt, Arena.rename, Stmt.respan, StmtInfo.respan, Except.map]

mutual
theorem acceptExpr_follows (scope : Scope) : ∀ e : Expr,
    Follows ρ (Tenure.Expr.respan (Range.rename ρ)) (acceptExpr scope e)
      (acceptExpr (scope.rename ρ) e)
  | .absent => by
    rw [acceptExpr, acceptExpr]
    exact follows_pure rfl
  | .node head x y args inits body result => by
    rw [acceptExpr, acceptExpr, acceptBindings_rename]
    cases ExprKind.ofName? head.kind with
    | none => exact follows_throw _
    | some kind =>
      refine follows_bind (follows_lift (exprTy scope head)) fun ty => ?_
      refine follows_bind (follows_lift (acceptBinding scope head.binding)) fun binding => ?_
      refine follows_bind (acceptExpr_follows scope x) fun x => ?_
      refine follows_bind (acceptExpr_follows scope y) fun y => ?_
      refine follows_bind (acceptExprs_follow scope args) fun args => ?_
      refine follows_bind (acceptInits_follow scope inits) fun inits => ?_
      refine follows_bind (follows_lift (acceptBindings scope head.params)) fun params => ?_
      refine follows_bind (acceptStmt_follows scope body) fun body => ?_
      refine follows_bind (acceptExpr_follows scope result) fun result => ?_
      simp only [id, identTy_rename]
      exact finishExpr_follows _ x y args inits body result
theorem acceptExprs_follow (scope : Scope) : ∀ es : List Expr,
    Follows ρ (Tenure.Expr.respanAll (Range.rename ρ)) (acceptExprs scope es)
      (acceptExprs (scope.rename ρ) es)
  | [] => by
    rw [acceptExprs, acceptExprs]
    exact follows_pure rfl
  | e :: es => by
    rw [acceptExprs, acceptExprs]
    refine follows_bind (acceptExpr_follows scope e) fun e => ?_
    refine follows_bind (acceptExprs_follow scope es) fun es => ?_
    exact follows_pure rfl
theorem acceptInits_follow (scope : Scope) : ∀ is : List Init,
    Follows ρ (FieldInit.respanAll (Range.rename ρ)) (acceptInits scope is)
      (acceptInits (scope.rename ρ) is)
  | [] => by
    rw [acceptInits, acceptInits]
    exact follows_pure rfl
  | .mk name span value :: is => by
    rw [acceptInits, acceptInits]
    refine follows_bind (acceptExpr_follows scope value) fun value => ?_
    refine follows_bind (acceptInits_follow scope is) fun is => ?_
    exact follows_pure rfl
theorem acceptStmt_follows (scope : Scope) : ∀ s : Stmt,
    Follows ρ (Tenure.Stmt.respan (Range.rename ρ)) (acceptStmt scope s)
      (acceptStmt (scope.rename ρ) s)
  | .absent => by
    rw [acceptStmt, acceptStmt]
    exact follows_pure rfl
  | .node head target value body orElse => by
    rw [acceptStmt, acceptStmt]
    cases StmtKind.ofName? head.kind with
    | none => exact follows_throw _
    | some kind =>
      refine follows_bind (follows_lift (acceptBinding scope head.binding)) fun binding => ?_
      simp only [id]
      split
      · exact follows_throw _
      refine follows_bind (acceptExpr_follows scope target) fun target => ?_
      refine follows_bind (acceptExpr_follows scope value) fun value => ?_
      refine follows_bind (acceptStmts_follow scope body) fun body => ?_
      refine follows_bind (acceptStmt_follows scope orElse) fun orElse => ?_
      exact finishStmt_follows _ target value body orElse
theorem acceptStmts_follow (scope : Scope) : ∀ ss : List Stmt,
    Follows ρ (Tenure.Stmt.respanAll (Range.rename ρ)) (acceptStmts scope ss)
      (acceptStmts (scope.rename ρ) ss)
  | [] => by
    rw [acceptStmts, acceptStmts]
    exact follows_pure rfl
  | s :: ss => by
    rw [acceptStmts, acceptStmts]
    refine follows_bind (acceptStmt_follows scope s) fun s => ?_
    refine follows_bind (acceptStmts_follow scope ss) fun ss => ?_
    exact follows_pure rfl
end

theorem acceptFields_rename (scope : Scope) (fs : List Field) :
    acceptFields (scope.rename ρ) fs =
      (acceptFields scope fs).map (List.map (Tenure.Field.respan (Range.rename ρ))) := by
  induction fs with
  | nil => rfl
  | cons f fs ih =>
    rw [acceptFields, acceptFields, ih]
    change (acceptTy scope f.ty).bind _ = ((acceptTy scope f.ty).bind _).map _
    cases acceptTy scope f.ty with
    | error e => rfl
    | ok ty => cases acceptFields scope fs <;> rfl

theorem acceptStructs_rename (scope : Scope) (ss : List Struct) :
    acceptStructs (scope.rename ρ) ss =
      (acceptStructs scope ss).map (List.map (StructDecl.respan (Range.rename ρ))) := by
  induction ss with
  | nil => rfl
  | cons s ss ih =>
    rw [acceptStructs, acceptStructs, ih, acceptFields_rename]
    cases acceptFields scope s.fields with
    | error e => rfl
    | ok fields => cases acceptStructs scope ss <;> rfl

theorem declareBinding_rename (scope : Scope) (b : Binding) :
    declareBinding (scope.rename ρ) b = (declareBinding scope b).map (Scope.rename ρ) := by
  unfold declareBinding
  by_cases zero : b.id = 0
  · rw [if_pos zero, if_pos zero]
    rfl
  rw [if_neg zero, if_neg zero]
  by_cases again : scope.numbers.contains b.id = true
  · rw [if_pos (show (scope.rename ρ).numbers.contains b.id = true from again), if_pos again]
    rfl
  rw [if_neg (show ¬(scope.rename ρ).numbers.contains b.id = true from again), if_neg again]
  change (acceptTy scope b.ty).bind _ = ((acceptTy scope b.ty).bind _).map _
  cases acceptTy scope b.ty with
  | error e => rfl
  | ok ty => simp [Scope.rename, Binding.respan, Except.bind, Except.map, pure, Except.pure, rangeOf,
      Range.rename, Range.of]

theorem declareBindings_rename (scope : Scope) (bs : List Binding) :
    declareBindings (scope.rename ρ) bs = (declareBindings scope bs).map (Scope.rename ρ) := by
  induction bs generalizing scope with
  | nil => rfl
  | cons b bs ih =>
    rw [declareBindings, declareBindings, declareBinding_rename]
    cases declareBinding scope b with
    | error e => rfl
    | ok scope => exact ih scope

theorem ownerOf_rename (scope : Scope) (f : Func) (receiver : Nat) :
    ownerOf (scope.rename ρ) f receiver = ownerOf scope f receiver := by
  unfold ownerOf
  split
  · simp only [Scope.rename, Array.getElem?_map, Option.map_map]
    rfl
  · rfl

theorem acceptFunc_follows (scope : Scope) (id : Nat) (f : Func) :
    Follows ρ (FuncDecl.respan (Range.rename ρ)) (acceptFunc scope id f)
      (acceptFunc (scope.rename ρ) id f) := by
  rw [acceptFunc, acceptFunc, acceptBindings_rename]
  refine follows_bind (follows_lift (acceptTy scope f.result)) fun result => ?_
  refine follows_bind (follows_lift (acceptBinding scope f.receiver)) fun receiver => ?_
  refine follows_bind (follows_lift (acceptBindings scope f.params)) fun params => ?_
  refine follows_bind (acceptStmts_follow scope f.body) fun body => ?_
  rw [ownerOf_rename]
  exact follows_pure rfl

theorem acceptFuncs_follow (scope : Scope) (id : Nat) (fs : List Func) :
    Follows ρ (List.map (FuncDecl.respan (Range.rename ρ))) (acceptFuncs scope id fs)
      (acceptFuncs (scope.rename ρ) id fs) := by
  induction fs generalizing id with
  | nil => exact follows_pure rfl
  | cons f fs ih =>
    rw [acceptFuncs, acceptFuncs]
    refine follows_bind (acceptFunc_follows scope id f) fun f => ?_
    refine follows_bind (ih (id + 1)) fun fs => ?_
    exact follows_pure rfl

theorem acceptIn_rename (ρ : Nat → Nat) (file : Nat) (d : Document) :
    acceptIn (ρ file) d = (acceptIn file d).map (Module.respan (Range.rename ρ) (ρ file)) := by
  unfold acceptIn
  have structs := acceptStructs_rename (ρ := ρ) { file, structs := d.structs } d.structs
  have bindings := declareBindings_rename (ρ := ρ) { file, structs := d.structs } d.bindings
  have start : Scope.rename ρ { file, structs := d.structs } = { file := ρ file, structs := d.structs } := by
    simp [Scope.rename]
  rw [start] at structs bindings
  dsimp only
  rw [structs, bindings]
  cases acceptStructs { file, structs := d.structs } d.structs with
  | error e => rfl
  | ok structs =>
    cases declareBindings { file, structs := d.structs } d.bindings with
    | error e => rfl
    | ok scope =>
      have funcs := acceptFuncs_follow (ρ := ρ) scope 0 d.funcs {}
      change (acceptFuncs (scope.rename ρ) 0 d.funcs {}).bind _ =
        ((acceptFuncs scope 0 d.funcs {}).bind _).map _
      rw [show Arena.rename ρ {} = {} by simp [Arena.rename]] at funcs
      rw [funcs]
      cases acceptFuncs scope 0 d.funcs {} <;> rfl

end Document

end Tenure
