import Tenure.Program.Walk

/- Induction over a tree of expressions and statements, where what holds of the parts in a list is
   given of each of them, and lists that are gathered part by part. -/
namespace Tenure

/-- A node has the property whenever its parts have it. -/
structure Inherits (P : Expr → Prop) (Q : Stmt → Prop) : Prop where
  noExpr (id : Nat) : P (.absent id)
  expr (info : ExprInfo) (x y : Expr) (args : List Expr) (inits : List FieldInit) (body : Stmt)
    (result : Expr) : P x → P y → (∀ e ∈ args, P e) → (∀ i ∈ inits, P i.value) → Q body →
      P result → P (.node info x y args inits body result)
  noStmt (id : Nat) : Q (.absent id)
  stmt (info : StmtInfo) (target value : Expr) (body : List Stmt) (orElse : Stmt) : P target →
    P value → (∀ s ∈ body, Q s) → Q orElse → Q (.node info target value body orElse)

namespace Inherits

variable {P : Expr → Prop} {Q : Stmt → Prop}

mutual
theorem onExpr (h : Inherits P Q) : ∀ e, P e
  | .absent id => h.noExpr id
  | .node info x y args inits body result =>
    h.expr info x y args inits body result (h.onExpr x) (h.onExpr y) (h.onExprs args)
      (h.onInits inits) (h.onStmt body) (h.onExpr result)
theorem onExprs (h : Inherits P Q) : ∀ es : List Expr, ∀ e ∈ es, P e
  | [] => nofun
  | e :: es => List.forall_mem_cons.mpr ⟨h.onExpr e, h.onExprs es⟩
theorem onInits (h : Inherits P Q) : ∀ is : List FieldInit, ∀ i ∈ is, P i.value
  | [] => nofun
  | .mk _ _ value :: is => List.forall_mem_cons.mpr ⟨h.onExpr value, h.onInits is⟩
theorem onStmt (h : Inherits P Q) : ∀ s, Q s
  | .absent id => h.noStmt id
  | .node info target value body orElse =>
    h.stmt info target value body orElse (h.onExpr target) (h.onExpr value) (h.onStmts body)
      (h.onStmt orElse)
theorem onStmts (h : Inherits P Q) : ∀ ss : List Stmt, ∀ s ∈ ss, Q s
  | [] => nofun
  | s :: ss => List.forall_mem_cons.mpr ⟨h.onStmt s, h.onStmts ss⟩
end

end Inherits

namespace Node

def isAbsent : Node → Bool
  | .expr e => e.info?.isNone
  | .stmt s => s.info?.isNone

def parts : Node → List Node
  | .expr (.node _ x y args inits body result) =>
    .expr x :: .expr y :: (args.map .expr ++ (inits.map (.expr ·.value) ++ [.stmt body, .expr result]))
  | .stmt (.node _ target value body orElse) =>
    .expr target :: .expr value :: (body.map .stmt ++ [.stmt orElse])
  | _ => []

theorem parts_induction {P : Node → Prop} (step : ∀ v : Node, (∀ p ∈ v.parts, P p) → P v) :
    ∀ v, P v := by
  have all : Inherits (fun e => P (.expr e)) fun s => P (.stmt s) := by
    constructor
    · exact fun id => step _ (List.forall_mem_nil _)
    · intro info x y args inits body result hx hy hargs hinits hbody hresult
      apply step
      simp only [parts, List.forall_mem_cons, List.forall_mem_append, List.forall_mem_map]
      exact ⟨hx, hy, hargs, hinits, hbody, hresult, List.forall_mem_nil _⟩
    · exact fun id => step _ (List.forall_mem_nil _)
    · intro info target value body orElse htarget hvalue hbody horElse
      apply step
      simp only [parts, List.forall_mem_cons, List.forall_mem_append, List.forall_mem_map]
      exact ⟨htarget, hvalue, hbody, horElse, List.forall_mem_nil _⟩
  rintro (e | s)
  · exact all.onExpr e
  · exact all.onStmt s

end Node

section Gathered

variable {α β : Type} {f g : α → List β} {F G : List α → List β}

/-- The lists of the elements, one behind the other. -/
structure Gathers (F : List α → List β) (f : α → List β) : Prop where
  nil : F [] = []
  cons (a : α) (as : List α) : F (a :: as) = f a ++ F as

theorem Gathers.flatMap (gathers : Gathers F f) (as : List α) : F as = as.flatMap f := by
  induction as with
  | nil => rw [gathers.nil, List.flatMap_nil]
  | cons a as ih => rw [gathers.cons, ih, List.flatMap_cons]

theorem Gathers.append (gathers : Gathers F f) (as bs : List α) : F (as ++ bs) = F as ++ F bs := by
  simp only [gathers.flatMap, List.flatMap_append]

theorem Gathers.single (gathers : Gathers F f) (a : α) : F [a] = f a := by
  rw [gathers.flatMap, List.flatMap_singleton]

theorem Gathers.none (gathers : Gathers F f) {as : List α} (none : ∀ a ∈ as, f a = []) : F as = [] := by
  rw [gathers.flatMap, List.flatMap_eq_nil_iff.mpr none]

theorem Gathers.subset (first : Gathers F f) (second : Gathers G g) {as : List α}
    (each : ∀ a ∈ as, f a ⊆ g a) : F as ⊆ G as := by
  induction as with
  | nil => rw [first.nil]; exact List.nil_subset _
  | cons a as ih =>
    obtain ⟨head, tail⟩ := List.forall_mem_cons.mp each
    rw [first.cons, second.cons]
    exact List.append_subset.mpr ⟨List.subset_append_of_subset_left _ head,
      List.subset_append_of_subset_right _ (ih tail)⟩

theorem Gathers.all (gathers : Gathers F f) {p : β → Prop} {as : List α}
    (each : ∀ a ∈ as, ∀ b ∈ f a, p b) : ∀ b ∈ F as, p b := by
  induction as with
  | nil => rw [gathers.nil]; exact nofun
  | cons a as ih =>
    obtain ⟨head, tail⟩ := List.forall_mem_cons.mp each
    rw [gathers.cons]
    exact List.forall_mem_append.mpr ⟨head, ih tail⟩

end Gathered

end Tenure
