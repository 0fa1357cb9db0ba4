import Tenure.Proofs.Tours

/- The course of a body. Collecting meets the nodes of a body in the order of evaluation, and with them
   go the bindings that are declared, the occurrences of bindings and the acts. What holds along such a
   course, however long, is shown once for each kind of step. -/
namespace Tenure

mutual
def Expr.binds : Expr → List Nat
  | .absent _ => []
  | .node info x y args inits body result => match info.kind with
    | .ident | .lit => []
    | .field | .unary => x.binds
    | .index => y.binds ++ x.binds
    | .call | .arrayLit => Expr.bindsAll args
    | .methodCall => x.binds ++ Expr.bindsAll args
    | .binary | .range => x.binds ++ y.binds
    | .structLit => FieldInit.bindsAll inits
    | .closure => bindingsOf info.params ++ (result.binds ++ body.binds)
def Expr.bindsAll : List Expr → List Nat
  | [] => []
  | e :: es => e.binds ++ Expr.bindsAll es
def FieldInit.bindsAll : List FieldInit → List Nat
  | [] => []
  | .mk _ _ value :: is => value.binds ++ FieldInit.bindsAll is
def Stmt.binds : Stmt → List Nat
  | .absent _ => []
  | .node info target value body orElse => match info.kind with
    | .letVar => value.binds ++ bindingsOf [info.binding]
    | .assign => value.binds ++ target.binds
    | .eval | .give => value.binds
    | .branch => value.binds ++ Stmt.bindsAll body ++ orElse.binds
    | .whileLoop => value.binds ++ Stmt.bindsAll body
    | .forLoop => value.binds ++ (bindingsOf [info.binding] ++ Stmt.bindsAll body)
    | .block => Stmt.bindsAll body
    | .leave | .again => []
def Stmt.bindsAll : List Stmt → List Nat
  | [] => []
  | s :: ss => s.binds ++ Stmt.bindsAll ss
end

def ExprInfo.occurrence (info : ExprInfo) : List (Nat × Nat) :=
  if info.binding = 0 then [] else [(info.binding, info.id)]

mutual
/-- The occurrences of bindings in the parts that an expression of its kind has, in the order of
evaluation: identifiers and calls of a closure by its name. -/
def Expr.occurrences : Expr → List (Nat × Nat)
  | .absent _ => []
  | .node info x y args inits body result => match info.kind with
    | .ident => info.occurrence
    | .lit => []
    | .field | .unary => x.occurrences
    | .index => y.occurrences ++ x.occurrences
    | .call => info.occurrence ++ Expr.occurrencesAll args
    | .methodCall => x.occurrences ++ Expr.occurrencesAll args
    | .binary | .range => x.occurrences ++ y.occurrences
    | .structLit => FieldInit.occurrencesAll inits
    | .arrayLit => Expr.occurrencesAll args
    | .closure => result.occurrences ++ body.occurrences
def Expr.occurrencesAll : List Expr → List (Nat × Nat)
  | [] => []
  | e :: es => e.occurrences ++ Expr.occurrencesAll es
def FieldInit.occurrencesAll : List FieldInit → List (Nat × Nat)
  | [] => []
  | .mk _ _ value :: is => value.occurrences ++ FieldInit.occurrencesAll is
def Stmt.occurrences : Stmt → List (Nat × Nat)
  | .absent _ => []
  | .node info target value body orElse => match info.kind with
    | .letVar | .eval | .give => value.occurrences
    | .assign => value.occurrences ++ target.occurrences
    | .branch => value.occurrences ++ Stmt.occurrencesAll body ++ orElse.occurrences
    | .whileLoop | .forLoop => value.occurrences ++ Stmt.occurrencesAll body
    | .block => Stmt.occurrencesAll body
    | .leave | .again => []
def Stmt.occurrencesAll : List Stmt → List (Nat × Nat)
  | [] => []
  | s :: ss => s.occurrences ++ Stmt.occurrencesAll ss
end

structure Outlook.Agree (A : Access → Access → Prop) (o p : Outlook) : Prop where
  refl (a : Access) : A a a
  part {a b : Access} : A a b → A a.ofPart b.ofPart
  call (info : ExprInfo) (i : Nat) : A (o.callAccess info i) (p.callAccess info i)
  receiver (info : ExprInfo) : A (o.receiverAccess info) (p.receiverAccess info)
  method (info : ExprInfo) (i : Nat) : A (o.methodAccess info i) (p.methodAccess info i)

theorem Outlook.agree_self (o : Outlook) : o.Agree Eq o :=
  ⟨fun _ => rfl, congrArg _, fun _ _ => rfl, fun _ => rfl, fun _ _ => rfl⟩

/-- The nodes, the bindings, the occurrences and the acts under two outlooks that belong together. The
variable `w` may run over what is used, and no other that is not declared in it. -/
inductive Course (A : Access → Access → Prop) (o p : Outlook) :
    Nat → List Node → List Nat → List (Nat × Nat) → List Act → List Act → Prop where
  | nil : Course A o p w [] [] [] [] []
  | append : Course A o p w vs ns os as cs → Course A o p w us ms qs bs ds →
      Course A o p w (vs ++ us) (ns ++ ms) (os ++ qs) (as ++ bs) (cs ++ ds)
  | use (kind : info.kind = .ident ∨ info.kind = .call)
      (mark : spot.loopVar = w ∨ spot.loopVar = 0) (same : A a b) :
      Course A o p w [.expr (.node info x y args inits body result)] [] info.occurrence
        ({ info.use a spot with reinit } : Use).acts ({ info.use b spot with reinit } : Use).acts
  | expr (plain : ¬ (info.kind = .ident ∨ info.kind = .call ∨ info.kind = .closure)) :
      Course A o p w [.expr (.node info x y args inits body result)] [] [] [] []
  | stmt (plain : ¬ (info.kind = .letVar ∨ info.kind = .forLoop)) :
      Course A o p w [.stmt (.node info target value body orElse)] [] [] [] []
  | closure (kind : info.kind = .closure) (same : A a b)
      (inner : Course A o p 0 (result.visits ++ body.visits) (result.binds ++ body.binds)
        (result.occurrences ++ body.occurrences)
        (result.acts o .move spot.inClosure ++ body.acts o)
        (result.acts p .move spot.inClosure ++ body.acts p)) :
      Course A o p w
        (.expr (.node info x y args inits body result) :: (result.visits ++ body.visits))
        (bindingsOf info.params ++ (result.binds ++ body.binds))
        (result.occurrences ++ body.occurrences)
        [.closure info.id a.transfers (bindingsOf info.params) spot
          (result.acts o .move spot.inClosure ++ body.acts o)]
        [.closure info.id b.transfers (bindingsOf info.params) spot
          (result.acts p .move spot.inClosure ++ body.acts p)]
  | named (kind : info.kind = .letVar)
      (inner : ∀ {a b : Access}, A a b → Course A o p w value.visits value.binds value.occurrences
        (value.acts o a { stmt := info.span }) (value.acts p b { stmt := info.span })) :
      Course A o p w (.stmt (.node info target value body orElse) :: value.visits)
        (value.binds ++ bindingsOf [info.binding]) value.occurrences
        (value.acts o (o.letAccess info value) { stmt := info.span } ++
          (bindingsOf [info.binding]).map .declare)
        (value.acts p (p.letAccess info value) { stmt := info.span } ++
          (bindingsOf [info.binding]).map .declare)
  | loop (inner : Course A o p w vs ns os as cs) :
      Course A o p w vs ns os [.loop stmt as] [.loop stmt cs]
  | each (kind : info.kind = .forLoop) (source : Course A o p info.binding vs ns os as cs)
      (inner : Course A o p w us ms qs bs ds) :
      Course A o p w (vs ++ .stmt (.node info target value body orElse) :: us)
        (ns ++ (bindingsOf [info.binding] ++ ms)) (os ++ qs)
        (as ++ [.each ⟨info.id, info.binding, value⟩ bs])
        (cs ++ [.each ⟨info.id, info.binding, value⟩ ds])

section Course

variable {A : Access → Access → Prop} {o p : Outlook} {w : Nat} {vs : List Node} {ns : List Nat}
  {os : List (Nat × Nat)} {as cs : List Act}

theorem Course.inExpr {info : ExprInfo} {x y : Expr} {args : List Expr} {inits : List FieldInit}
    {body : Stmt} {result : Expr}
    (plain : ¬ (info.kind = .ident ∨ info.kind = .call ∨ info.kind = .closure))
    (h : Course A o p w vs ns os as cs) :
    Course A o p w (.expr (.node info x y args inits body result) :: vs) ns os as cs :=
  .append (.expr plain) h

theorem Course.inStmt {info : StmtInfo} {target value : Expr} {body : List Stmt} {orElse : Stmt}
    (plain : ¬ (info.kind = .letVar ∨ info.kind = .forLoop)) (h : Course A o p w vs ns os as cs) :
    Course A o p w (.stmt (.node info target value body orElse) :: vs) ns os as cs :=
  .append (.stmt plain) h

end Course

section Courses

variable {A : Access → Access → Prop} {o p : Outlook}

mutual
theorem expr_course (agree : o.Agree A p) : ∀ (e : Expr) {a b : Access} {spot : Spot} {w : Nat},
    A a b → spot.loopVar = w ∨ spot.loopVar = 0 →
      Course A o p w e.visits e.binds e.occurrences (e.acts o a spot) (e.acts p b spot)
  | .absent _, _, _, _, _, _, _ => .nil
  | .node info x y args inits body result, _, _, _, _, same, mark => by
    have read := agree.refl .read
    rw [Expr.visits, Expr.binds, Expr.occurrences, Expr.acts, Expr.acts]
    cases kind : info.kind with
    | ident => exact .use (.inl kind) mark same
    | lit => exact .expr (by simp [kind])
    | field => exact .inExpr (by simp [kind]) (expr_course agree x (agree.part same) mark)
    | index =>
      exact .inExpr (by simp [kind])
        (.append (expr_course agree y read (.inr rfl)) (expr_course agree x (agree.part same) mark))
    | call =>
      exact .append (.use (.inr kind) mark read) (exprs_course agree args (agree.call info) 0 mark)
    | methodCall =>
      exact .inExpr (by simp [kind]) (.append (expr_course agree x (agree.receiver info) mark)
        (exprs_course agree args (agree.method info) 0 mark))
    | binary | range =>
      exact .inExpr (by simp [kind])
        (.append (expr_course agree x read mark) (expr_course agree y read mark))
    | unary => exact .inExpr (by simp [kind]) (expr_course agree x read mark)
    | structLit => exact .inExpr (by simp [kind]) (inits_course agree inits mark)
    | arrayLit =>
      exact .inExpr (by simp [kind]) (exprs_course agree args (fun _ => agree.refl .store) 0 mark)
    | closure =>
      exact .closure kind same (.append (expr_course agree result (agree.refl .move) (.inr rfl))
        (stmt_course agree body))
theorem exprs_course (agree : o.Agree A p) : ∀ (es : List Expr) {f g : Nat → Access},
    (∀ i, A (f i) (g i)) → ∀ (i : Nat) {spot : Spot} {w : Nat},
      spot.loopVar = w ∨ spot.loopVar = 0 →
        Course A o p w (Expr.visitsAll es) (Expr.bindsAll es) (Expr.occurrencesAll es)
          (Expr.actsAll o es f i spot) (Expr.actsAll p es g i spot)
  | [], _, _, _, _, _, _, _ => .nil
  | e :: es, _, _, same, i, _, _, mark =>
    .append (expr_course agree e (same i) mark) (exprs_course agree es same (i + 1) mark)
theorem inits_course (agree : o.Agree A p) : ∀ (is : List FieldInit) {spot : Spot} {w : Nat},
    spot.loopVar = w ∨ spot.loopVar = 0 →
      Course A o p w (FieldInit.visitsAll is) (FieldInit.bindsAll is) (FieldInit.occurrencesAll is)
        (FieldInit.actsAll o is spot) (FieldInit.actsAll p is spot)
  | [], _, _, _ => .nil
  | .mk _ _ value :: is, _, _, mark =>
    .append (expr_course agree value (agree.refl .store) mark) (inits_course agree is mark)
theorem stmt_course (agree : o.Agree A p) : ∀ (s : Stmt) {w : Nat},
    Course A o p w s.visits s.binds s.occurrences (s.acts o) (s.acts p)
  | .absent _, _ => .nil
  | .node info target value body orElse, w => by
    have part : ∀ {a b : Access}, A a b → Course A o p w value.visits value.binds value.occurrences
        (value.acts o a { stmt := info.span }) (value.acts p b { stmt := info.span }) :=
      fun same => expr_course agree value same (.inr rfl)
    have source := part (agree.refl .read)
    have inside := @stmts_course agree body w
    rw [Stmt.visits, Stmt.binds, Stmt.occurrences, Stmt.acts, Stmt.acts]
    cases kind : info.kind with
    | letVar => exact .named kind part
    | assign =>
      refine .inStmt (by simp [kind]) ?_
      cases target with
      | absent =>
        simp only [Expr.info?, Expr.visits, Expr.binds, Expr.occurrences, List.append_nil]
        exact source
      | node t x y args inits inner result =>
        have aim := @expr_course agree (.node t x y args inits inner result) .mutate .mutate
          { stmt := info.span } w (agree.refl .mutate) (.inr rfl)
        simp only [Expr.info?]
        split
        · exact .append source aim
        · split
          · rename_i whole
            simp only [Expr.visits, Expr.binds, Expr.occurrences, whole]
            exact .append (part (agree.refl .move))
              (.use (.inl whole) (.inr rfl) (agree.refl .mutate))
          · exact .append (part (agree.refl .store)) aim
    | eval => exact .inStmt (by simp [kind]) source
    | give => exact .inStmt (by simp [kind]) (expr_course agree value (agree.refl .move) (.inr rfl))
    | branch =>
      exact .inStmt (by simp [kind])
        (.append (.append source inside) (stmt_course agree orElse))
    | whileLoop => exact .inStmt (by simp [kind]) (.loop (.append source inside))
    | forLoop =>
      refine .each kind (expr_course agree value (agree.refl .read) ?_) inside
      dsimp only
      split
      · exact .inl rfl
      · exact .inr rfl
    | block => exact .inStmt (by simp [kind]) inside
    | leave | again => exact .stmt (by simp [kind])
theorem stmts_course (agree : o.Agree A p) : ∀ (ss : List Stmt) {w : Nat},
    Course A o p w (Stmt.visitsAll ss) (Stmt.bindsAll ss) (Stmt.occurrencesAll ss)
      (Stmt.actsAll o ss) (Stmt.actsAll p ss)
  | [], _ => .nil
  | s :: ss, _ => .append (stmt_course agree s) (stmts_course agree ss)
end

end Courses

end Tenure
