import Tenure.Proofs.Acts

/- The tour of collecting. It visits the nodes of a body in the order of evaluation, and what it does
   between two states is put together from a few steps. On the way it carries out the acts of the
   body. -/
namespace Tenure

mutual
def Expr.visits : Expr → List Node
  | .absent _ => []
  | .node info x y args inits body result =>
    .expr (.node info x y args inits body result) ::
      match info.kind with
      | .ident | .lit => []
      | .field | .unary => x.visits
      | .index => y.visits ++ x.visits
      | .call | .arrayLit => Expr.visitsAll args
      | .methodCall => x.visits ++ Expr.visitsAll args
      | .binary | .range => x.visits ++ y.visits
      | .structLit => FieldInit.visitsAll inits
      | .closure => result.visits ++ body.visits
def Expr.visitsAll : List Expr → List Node
  | [] => []
  | e :: es => e.visits ++ Expr.visitsAll es
def FieldInit.visitsAll : List FieldInit → List Node
  | [] => []
  | .mk _ _ value :: is => value.visits ++ FieldInit.visitsAll is
/-- A loop over elements is met behind what it runs over. -/
def Stmt.visits : Stmt → List Node
  | .absent _ => []
  | .node info target value body orElse =>
    let here := Node.stmt (.node info target value body orElse)
    match info.kind with
    | .letVar | .eval | .give => here :: value.visits
    | .assign => here :: (value.visits ++ target.visits)
    | .branch => here :: (value.visits ++ Stmt.visitsAll body ++ orElse.visits)
    | .whileLoop => here :: (value.visits ++ Stmt.visitsAll body)
    | .forLoop => value.visits ++ here :: Stmt.visitsAll body
    | .block => here :: Stmt.visitsAll body
    | .leave | .again => [here]
def Stmt.visitsAll : List Stmt → List Node
  | [] => []
  | s :: ss => s.visits ++ Stmt.visitsAll ss
end

namespace Collector

def goTo (c : Collector) (spot : Spot) : Collector :=
  { c with stmt := spot.stmt, inReturn := spot.inReturn, loopVar := spot.loopVar }

end Collector

/-- A way through a body: its acts, its nodes, and the states at both ends. -/
inductive Tour (o : Outlook) : List Act → List Node → Collector → Collector → Prop where
  | refl : Tour o [] [] c c
  | trans : Tour o as vs c d → Tour o bs ws d e → Tour o (as ++ bs) (vs ++ ws) c e
  | inExpr (kind : info.kind ≠ .closure) (inner : Tour o as vs c d) :
      Tour o as (.expr (.node info x y args inits body result) :: vs) c d
  | inStmt (kind : ¬ (info.kind = .letVar ∧ value.isKind .closure = true)) (inner : Tour o as vs c d) :
      Tour o as (.stmt (.node info target value body orElse) :: vs) c d
  | use (kind : info.kind ≠ .closure) :
      Tour o ({ info.use access c.spot with reinit } : Use).acts
        [.expr (.node info x y args inits body result)] c
        (c.use info.binding access info.id info.span reinit)
  | part (kind : info.kind ≠ .closure) (first : Tour o as vs c d)
      (rest : Tour o bs ws (d.project info root access) e) :
      Tour o (as ++ bs) (.expr (.node info x y args inits body result) :: (vs ++ ws)) c e
  | declare : Tour o ((bindingsOf [b]).map .declare) [] c (c.declare b)
  | closure (kind : info.kind = .closure)
      (inner : Tour o as vs (c.openClosure info.id escapes info.params) d) :
      Tour o [.closure info.id escapes (bindingsOf info.params) c.spot as]
        (.expr (.node info x y args inits body result) :: vs) c (d.closeClosure c info.id escapes)
  | named (kind : info.kind = .letVar) (closure : i.kind = .closure)
      (known : escapes = o.escapingLets.contains info.binding) (here : c.spot = { stmt := info.span })
      (inner : Tour o (result.acts o .move c.spot.inClosure ++ inside.acts o) vs
        (c.openClosure i.id escapes i.params) d) :
      Tour o [.closure i.id escapes (bindingsOf i.params) c.spot
          (result.acts o .move c.spot.inClosure ++ inside.acts o)]
        (.stmt (.node info target (.node i x y args inits inside result) body orElse) ::
          .expr (.node i x y args inits inside result) :: vs) c (d.closeClosure c i.id escapes)
  | loop (inner : Tour o as vs c.enterLoop d) : Tour o [.loop stmt as] vs c d.leaveLoop
  | each (site : LoopSite) (inner : Tour o as vs ((c.addLoop site).enterLoop.declare site.var) d) :
      Tour o [.each site as] vs c d.leaveLoop
  | elsewhere (spot : Spot) (inner : Tour o as vs (c.goTo spot) d) : Tour o as vs c (d.goTo c.spot)

open Collector (Follows)

section Tour

variable {o : Outlook} {as : List Act} {vs : List Node} {c d : Collector}

theorem Tour.follows (h : Tour o as vs c d) :
    ∀ {loops : List Nat}, c.loopDepth = loops.length → Follows loops as c d := by
  induction h with
  | refl => exact fun _ => .refl
  | trans _ _ first second =>
    exact fun depth => (first depth).trans (second ((first depth).depth depth))
  | inExpr _ _ inner | inStmt _ _ inner => exact inner
  | use => exact fun depth => Collector.use_follows depth ..
  | part _ _ _ first rest =>
    intro loops depth
    refine (first depth).trans ((Collector.project_follows ..).trans (rest ?_))
    exact (Collector.project_follows ..).depth ((first depth).depth depth)
  | declare => exact fun depth => Collector.declare_follows depth _
  | closure _ _ inner | named _ _ _ _ _ inner =>
    intro loops depth
    exact Collector.closure_follows depth _ _ _
      (inner ((Collector.openClosure_depth ..).trans depth))
  | loop _ inner =>
    exact fun depth => Collector.loop_follows _ depth (inner (congrArg (· + 1) depth))
  | each site _ inner =>
    intro loops depth
    exact Collector.each_follows site depth
      (inner ((Collector.declare_depth _ _).trans (congrArg (· + 1) depth)))
  | elsewhere _ _ inner => exact fun depth => (inner depth).elsewhere rfl rfl rfl rfl rfl

theorem Tour.spot (h : Tour o as vs c d) : d.spot = c.spot :=
  (h.follows (List.length_replicate (n := c.loopDepth) (a := 0)).symm).spot

theorem Tour.pair {bs : Spot → List Act} {ws : List Node} {e : Collector} (first : Tour o as vs c d)
    (second : Tour o (bs d.spot) ws d e) : Tour o (as ++ bs c.spot) (vs ++ ws) c e := by
  rw [first.spot] at second
  exact first.trans second

theorem Tour.ends {bs : List Act} {e : Collector} (first : Tour o as vs c d) (second : Tour o bs [] d e) :
    Tour o (as ++ bs) vs c e := by
  have both := first.trans second
  rwa [List.append_nil] at both

theorem Tour.back (spot : Spot) (home : Spot → Spot) (h : Tour o as vs (c.goTo spot) d)
    (same : home spot = c.spot) : Tour o as vs c (d.goTo (home d.spot)) := by
  have there : d.spot = spot := h.spot
  rw [there, same]
  exact .elsewhere spot h

theorem Tour.within (stmt : Range) (h : Tour o as vs { c with stmt } d) :
    Tour o as vs c { d with stmt := c.stmt } :=
  Tour.back { c.spot with stmt } (fun p => { p with stmt := c.stmt }) h rfl

end Tour

section Parts

variable {o : Outlook} {info : ExprInfo} {x : Expr} {args : List Expr} {c d : Collector}

theorem part_tour {y result : Expr} {inits : List FieldInit} {body : Stmt} {as : List Act}
    {vs : List Node} {root : Nat} {access : Access} (kind : info.kind ≠ .closure)
    (first : Tour o as vs c d) (value : ∀ d : Collector,
      Tour o (x.acts o access.ofPart d.spot) x.visits d (x.collect o access.ofPart d)) :
    Tour o (as ++ x.acts o access.ofPart c.spot)
      (.expr (.node info x y args inits body result) :: (vs ++ x.visits)) c
      (if access = .mutate then x.collect o .mutate d
        else x.collect o .read (d.project info root access)) := by
  have given : (d.project info root access).spot = c.spot :=
    (@Collector.project_follows [] d info root access).spot.trans first.spot
  have rest := value (d.project info root access)
  rw [given] at rest
  have same : (if access = .mutate then x.collect o .mutate d
      else x.collect o .read (d.project info root access)) =
        x.collect o access.ofPart (d.project info root access) := by cases access <;> rfl
  rw [same]
  exact .part kind first rest

theorem closure_tour {body : Stmt} {result : Expr} {escapes : Bool} (c : Collector)
    (value : ∀ d : Collector, Tour o (result.acts o .move d.spot) result.visits d
      (result.collect o .move d))
    (block : ∀ {d : Collector}, (∃ r, d.spot = { stmt := r }) →
      Tour o (body.acts o) body.visits d (body.collect o d)) :
    Tour o (result.acts o .move c.spot.inClosure ++ body.acts o) (result.visits ++ body.visits)
      (c.openClosure info.id escapes info.params)
      (body.collect o (result.collect o .move (c.openClosure info.id escapes info.params))) := by
  have opened := Collector.openClosure_spot c info.id escapes info.params
  have first := value (c.openClosure info.id escapes info.params)
  rw [opened] at first
  exact first.trans (block ⟨_, first.spot.trans opened⟩)

theorem letAccess_transfers (o : Outlook) (info : StmtInfo) {value : Expr}
    (closure : value.isKind .closure = true) :
    (o.letAccess info value).transfers = o.escapingLets.contains info.binding := by
  rw [Outlook.letAccess, closure]
  cases o.escapingLets.contains info.binding <;> rfl

variable (o info args c)

theorem collect_call :
    (if info.binding ≠ 0 then
        Expr.collectAll o args (fun _ => .move) 0 (c.use info.binding .read info.id info.span false)
      else Expr.collectAll o args (argAccess (o.table.get? info.callee)) 0 c) =
      Expr.collectAll o args (o.callAccess info) 0
        (c.use info.binding .read info.id info.span false) := by
  by_cases named : info.binding ≠ 0
  · rw [if_pos named, Outlook.callAccess, if_pos named]
  · have same : c.use info.binding .read info.id info.span false = c :=
      if_pos (Decidable.not_not.mp named)
    rw [if_neg named, Outlook.callAccess, if_neg named, same]

end Parts

mutual
theorem expr_tour (o : Outlook) : ∀ (e : Expr) (access : Access) (c : Collector),
    Tour o (e.acts o access c.spot) e.visits c (e.collect o access c)
  | .absent _, _, _ => .refl
  | .node info x y args inits body result, access, c => by
    rw [Expr.acts, Expr.visits, Expr.collect]
    cases kind : info.kind with
    | ident => exact .use (by simp [kind])
    | lit => exact .inExpr (by simp [kind]) .refl
    | field => exact part_tour (by simp [kind]) .refl (expr_tour o x _)
    | index =>
      have place := Tour.back { c.spot with loopVar := 0 } (fun p => { p with loopVar := c.loopVar })
        (expr_tour o y .read { c with loopVar := 0 }) rfl
      exact part_tour (by simp [kind]) place (expr_tour o x _)
    | call =>
      dsimp only
      rw [collect_call]
      have first : Tour o (info.use .read c.spot).acts
          [.expr (.node info x y args inits body result)] c
          (c.use info.binding .read info.id info.span false) := .use (by simp [kind])
      exact first.pair (exprs_tour o args _ 0 _)
    | methodCall =>
      refine .inExpr (by simp [kind]) ?_
      have both : ∀ first rest, Tour o (x.acts o first c.spot ++ Expr.actsAll o args rest 0 c.spot)
          (x.visits ++ Expr.visitsAll args) c
          (Expr.collectAll o args rest 0 (x.collect o first c)) :=
        fun first rest => (expr_tour o x first c).pair (exprs_tour o args rest 0 _)
      cases sig : o.table.get? info.target with
      | none =>
        simp only [Outlook.receiverAccess, Outlook.methodAccess, sig]
        exact both ..
      | some known =>
        simp only [Outlook.receiverAccess, Outlook.methodAccess, sig]
        exact both ..
    | binary | range =>
      exact .inExpr (by simp [kind]) ((expr_tour o x .read c).pair (expr_tour o y .read _))
    | unary => exact .inExpr (by simp [kind]) (expr_tour o x .read c)
    | structLit => exact .inExpr (by simp [kind]) (inits_tour o inits c)
    | arrayLit => exact .inExpr (by simp [kind]) (exprs_tour o args _ 0 c)
    | closure => exact .closure kind (closure_tour c (expr_tour o result .move) (stmt_tour o body))
theorem exprs_tour (o : Outlook) : ∀ (es : List Expr) (access : Nat → Access) (i : Nat)
    (c : Collector), Tour o (Expr.actsAll o es access i c.spot) (Expr.visitsAll es) c
      (Expr.collectAll o es access i c)
  | [], _, _, _ => .refl
  | e :: es, access, i, c => (expr_tour o e (access i) c).pair (exprs_tour o es access (i + 1) _)
theorem inits_tour (o : Outlook) : ∀ (is : List FieldInit) (c : Collector),
    Tour o (FieldInit.actsAll o is c.spot) (FieldInit.visitsAll is) c
      (FieldInit.collectAll o is c)
  | [], _ => .refl
  | .mk _ _ value :: is, c => (expr_tour o value .store c).pair (inits_tour o is _)
theorem stmt_tour (o : Outlook) : ∀ (s : Stmt) {c : Collector}, (∃ r, c.spot = { stmt := r }) →
    Tour o (s.acts o) s.visits c (s.collect o c)
  | .absent _, _, _ => .refl
  | .node info target value body orElse, outer, ⟨r, plain⟩ => by
    obtain ⟨outer, rfl⟩ : ∃ c : Collector, outer = c.goTo { stmt := r } := ⟨outer, by rw [← plain]; rfl⟩
    let start : Collector := outer.goTo { stmt := info.span }
    have valued : ∀ access, Tour o (value.acts o access { stmt := info.span }) value.visits
        start (value.collect o access start) :=
      fun access => expr_tour o value access start
    have block : ∀ {d : Collector}, d.spot = { stmt := info.span } → Tour o (Stmt.actsAll o body)
        (Stmt.visitsAll body) d (Stmt.collectAll o body d) :=
      fun spot => stmts_tour o body ⟨_, spot⟩
    rw [Stmt.acts, Stmt.visits, Stmt.collect]
    refine Tour.within info.span ?_
    cases kind : info.kind with
    | letVar =>
      by_cases closure : value.isKind .closure = true
      · have escapes := letAccess_transfers o info closure
        cases value with
        | absent id => simp [Expr.isKind, Expr.info?] at closure
        | node i x y args inits inside result =>
          have inner : i.kind = .closure := by simpa [Expr.isKind, Expr.info?] using closure
          simp only [Expr.acts, Expr.visits, Expr.collect, inner]
          exact (Tour.named kind inner escapes rfl
            (closure_tour start (expr_tour o result .move) (stmt_tour o inside))).ends .declare
      · exact .inStmt (fun both => closure both.2) ((valued _).ends .declare)
    | assign =>
      refine .inStmt (by simp [kind]) ?_
      cases target with
      | absent =>
        simp only [Expr.info?, Expr.visits, List.append_nil]
        exact valued .read
      | node t x y args inits inner result =>
        simp only [Expr.info?]
        split
        · exact (valued .read).pair (expr_tour o (.node t ..) .mutate _)
        · split
          · rename_i whole
            have named : Tour o
                ({ t.use .mutate (value.collect o .move start).spot with reinit := true } : Use).acts
                [.expr (.node t x y args inits inner result)]
                (value.collect o .move start)
                ((value.collect o .move start).use t.binding .mutate t.id t.span true) :=
              .use (by simp [whole])
            rw [(valued .move).spot] at named
            simp only [Expr.visits, whole]
            exact (valued .move).trans named
          · exact (valued .store).pair (expr_tour o (.node t ..) .mutate _)
    | eval => exact .inStmt (by simp [kind]) (valued .read)
    | give =>
      exact .inStmt (by simp [kind])
        (Tour.back { stmt := info.span, inReturn := true } (fun p => { p with inReturn := false })
          (expr_tour o value .move { start with inReturn := true }) rfl)
    | branch =>
      refine .inStmt (by simp [kind]) ?_
      have test := (valued .read).trans (block (valued .read).spot)
      exact test.trans (stmt_tour o orElse ⟨_, test.spot⟩)
    | whileLoop =>
      have test := expr_tour o value .read start.enterLoop
      exact .inStmt (by simp [kind]) (.loop (test.trans (block test.spot)))
    | forLoop =>
      have iterated : Tour o
          (value.acts o .read
            { stmt := info.span
              loopVar := if (value.info?.map (·.kind.isPlace)).getD false then info.binding else 0 })
          value.visits start
          (if (value.info?.map (·.kind.isPlace)).getD false then
            { value.collect o .read { start with loopVar := info.binding } with loopVar := 0 }
          else value.collect o .read start) := by
        split
        · exact Tour.back { stmt := info.span, loopVar := info.binding } (fun p => { p with loopVar := 0 })
            (expr_tour o value .read { start with loopVar := info.binding }) rfl
        · exact valued .read
      exact iterated.trans (.inStmt (by simp [kind])
        (.each _ (block ((Collector.declare_spot _ _).trans iterated.spot))))
    | leave | again => exact .inStmt (by simp [kind]) .refl
    | block => exact .inStmt (by simp [kind]) (block rfl)
theorem stmts_tour (o : Outlook) : ∀ (ss : List Stmt) {c : Collector}, (∃ r, c.spot = { stmt := r }) →
    Tour o (Stmt.actsAll o ss) (Stmt.visitsAll ss) c (Stmt.collectAll o ss c)
  | [], _, _ => .refl
  | s :: ss, c, plain => by
    have first := stmt_tour o s plain
    rw [← first.spot] at plain
    exact first.trans (stmts_tour o ss plain)
end

namespace FuncDecl

def start (f : FuncDecl) : Collector := Collector.declareAll {} (f.receiver :: f.params)

theorem tour (f : FuncDecl) (o : Outlook) :
    Tour o (Stmt.actsAll o f.body) (Stmt.visitsAll f.body) f.start (Stmt.collectAll o f.body f.start) :=
  stmts_tour o f.body ⟨Range.zero, Collector.declareAll_spot ..⟩

theorem collectWith_ledger (f : FuncDecl) (o : Outlook) :
    (f.collectWith o).usages = (Act.runAll [] (f.acts o) {}).usages ∧
      (f.collectWith o).loops = (Act.runAll [] (f.acts o) {}).loops := by
  have body := (f.tour o).follows (Collector.declareAll_depth .. : _ = ([] : List Nat).length)
  have run : (Stmt.collectAll o f.body f.start).ledger = Act.runAll [] (f.acts o) {} := by
    rw [body.ledger, acts, runAll_append, runAll_declares]
    exact congrArg _ (Collector.ledger_declareAll {} (f.receiver :: f.params))
  exact ⟨congrArg Ledger.usages run, congrArg Ledger.loops run⟩

end FuncDecl

end Tenure
