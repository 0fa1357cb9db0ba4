import Tenure.Proofs.Tables
import Tenure.Proofs.Traversals

/- What a loop turns into modifications when it modifies its variable. While the iterable of a loop is
   collected its occurrences are marked with the variable, and the mark is taken off for the index of a
   projection and for closures only. So below a chain of projections it reaches an identifier, but also
   everything that is read in a call, a literal or an operation there. -/
namespace Tenure

namespace Expr

def base : Expr → Expr
  | .absent id => .absent id
  | .node info x y args inits body result => match info.kind with
    | .field | .index => x.base
    | _ => .node info x y args inits body result

def rootRead (e : Expr) : List (Nat × Nat) := if e.root = 0 then [] else [(e.root, e.base.id)]

end Expr

def ExprInfo.readAs (info : ExprInfo) (access : Access) : List (Nat × Nat) :=
  if access = .read then info.occurrence else []

mutual
/-- What is read in an expression, outside of closures and of the indices of projections. -/
def Expr.reads (o : Outlook) : Expr → Access → List (Nat × Nat)
  | .absent _, _ => []
  | .node info x y args inits _ _, access => match info.kind with
    | .ident => info.readAs access
    | .lit | .closure => []
    | .field | .index => x.reads o access.ofPart
    | .call => info.occurrence ++ Expr.readsAll o args (o.callAccess info) 0
    | .methodCall =>
      x.reads o (o.receiverAccess info) ++ Expr.readsAll o args (o.methodAccess info) 0
    | .binary | .range => x.reads o .read ++ y.reads o .read
    | .unary => x.reads o .read
    | .structLit => FieldInit.readsAll o inits
    | .arrayLit => Expr.readsAll o args (fun _ => .store) 0
def Expr.readsAll (o : Outlook) : List Expr → (Nat → Access) → Nat → List (Nat × Nat)
  | [], _, _ => []
  | e :: es, access, i => e.reads o (access i) ++ Expr.readsAll o es access (i + 1)
def FieldInit.readsAll (o : Outlook) : List FieldInit → List (Nat × Nat)
  | [] => []
  | .mk _ _ value :: is => value.reads o .store ++ FieldInit.readsAll o is
end

/-- What a loop over the expression runs over. Only places are run over in place. -/
def Expr.traversed (o : Outlook) (e : Expr) : List (Nat × Nat) :=
  if (e.info?.map (·.kind.isPlace)).getD false then e.reads o .read else []

mutual
def Stmt.openLoops : Stmt → List (StmtInfo × Expr)
  | .absent _ => []
  | .node info _ value body orElse => match info.kind with
    | .branch => Stmt.openLoopsAll body ++ orElse.openLoops
    | .whileLoop | .block => Stmt.openLoopsAll body
    | .forLoop => (info, value) :: Stmt.openLoopsAll body
    | .letVar | .assign | .eval | .give | .leave | .again => []
def Stmt.openLoopsAll : List Stmt → List (StmtInfo × Expr)
  | [] => []
  | s :: ss => s.openLoops ++ Stmt.openLoopsAll ss
end

/-- The events that settling a loop with variable `w` changes, each as the binding it is recorded for and
its occurrence. -/
def Usage.turned (w : Nat) (u : Usage) : List (Nat × Nat) :=
  (u.events.filter fun e => e.retarget w ≠ e).map fun e => (u.binding, e.expr)

def Collection.turned (c : Collection) (w : Nat) : List (Nat × Nat) := c.usages.flatMap (Usage.turned w)

def Ledger.turned (l : Ledger) (w : Nat) : List (Nat × Nat) := l.usages.flatMap (Usage.turned w)

theorem retarget_cases (w : Nat) (e : Event) : e.retarget w = e ∨
    e.loopVar = w ∧ e.kind = .read ∧ e.retarget w = { e with kind := .mutate } := by
  unfold Event.retarget
  split
  · rename_i both
    exact .inr ⟨both.1, both.2, rfl⟩
  · exact .inl rfl

theorem retarget_ne_iff (w : Nat) (e : Event) :
    e.retarget w ≠ e ↔ e.loopVar = w ∧ e.kind = .read := by
  constructor
  · intro changed
    rcases retarget_cases w e with same | ⟨mine, reads, -⟩
    · exact absurd same changed
    · exact ⟨mine, reads⟩
  · intro both same
    have kind := congrArg Event.kind same
    rw [Event.retarget, if_pos both, both.2] at kind
    cases kind

section Turned

variable {w : Nat}

def Event.turns (w : Nat) (e : Event) : List (Nat × Nat) :=
  if e.loopVar = w ∧ e.kind = .read then [(e.binding, e.expr)] else []

theorem turns_other {e : Event} (other : e.loopVar ≠ w) : e.turns w = [] :=
  if_neg fun both => other both.1

theorem turned_grown {u : Usage} {e : Event} (own : u.binding = e.binding) :
    ({ u with events := u.events ++ [e] } : Usage).turned w = u.turned w ++ e.turns w := by
  unfold Usage.turned Event.turns
  rw [List.filter_append, List.map_append]
  congr 1
  by_cases mine : e.loopVar = w ∧ e.kind = .read
  · rw [if_pos mine, ← own, List.filter_cons_of_pos (by simpa using (retarget_ne_iff w e).mpr mine)]
    rfl
  · rw [if_neg mine, List.filter_cons_of_neg (by simpa using mt (retarget_ne_iff w e).mp mine)]
    rfl

theorem addEvent_turned (e : Event) (us : List Usage) :
    ((Collector.addEvent e us).flatMap (Usage.turned w)).Perm
      (us.flatMap (Usage.turned w) ++ e.turns w) := by
  obtain ⟨front, u, back, own, added, origin⟩ := addEvent_cases e us
  have before : us.flatMap (Usage.turned w) = (front ++ u :: back).flatMap (Usage.turned w) := by
    rcases origin with rfl | ⟨-, opened⟩
    · rfl
    · rw [opened, List.flatMap_append]
      exact (List.append_nil _).symm
  rw [added, before, List.flatMap_append, List.flatMap_append, List.flatMap_cons, List.flatMap_cons,
    turned_grown own, List.append_assoc, List.append_assoc, List.append_assoc]
  exact (List.perm_append_comm.append_left _).append_left _

namespace Ledger

theorem note_outside {l : Ledger} (outside : l.frames = []) (e : Event) (access : Access) :
    ((l.note e access).turned w).Perm (l.turned w ++ e.turns w) := by
  rw [note, outside]
  exact addEvent_turned { e with seq := l.seq } l.usages

theorem note_other (l : Ledger) {e : Event} (access : Access) (other : e.loopVar ≠ w) :
    ((l.note e access).turned w).Perm (l.turned w) := by
  have added := addEvent_turned (w := w) { e with seq := l.seq } l.usages
  rw [turns_other (e := { e with seq := l.seq }) other, List.append_nil] at added
  unfold note
  split
  · exact added
  · split
    · exact added
    · exact .refl _

theorem declare_turned (l : Ledger) (depth b : Nat) : (l.declare depth b).turned w = l.turned w := by
  unfold declare turned
  dsimp only
  split
  · rfl
  · rw [List.flatMap_append]
    exact List.append_nil _

theorem declareAll_turned (l : Ledger) (depth : Nat) (bs : List Nat) :
    (l.declareAll depth bs).turned w = l.turned w := by
  induction bs generalizing l with
  | nil => rfl
  | cons b bs ih => exact (ih (l.declare depth b)).trans (l.declare_turned depth b)

theorem leave_turned (counts : w ≠ 0) (l : Ledger) (depth expr : Nat) (escapes : Bool) (spot : Spot) :
    ((l.leave depth expr escapes spot).turned w).Perm (l.turned w) := by
  unfold leave
  split
  · exact .refl _
  · rename_i f fs _
    -- what a closure captures is marked by no loop
    exact List.foldlRecOn (motive := fun k : Ledger => (k.turned w).Perm (l.turned w)) f.captures _
      (.refl _) fun k same cap _ => (k.note_other _ counts.symm).trans same

end Ledger

def Act.Quiet (w : Nat) (as : List Act) : Prop := ∀ u ∈ Act.usesAll as, u.spot.loopVar ≠ w

theorem runAll_quiet (counts : w ≠ 0) {as : List Act} (loops : List Nat) (l : Ledger)
    (quiet : Act.Quiet w as) : ((Act.runAll loops as l).turned w).Perm (l.turned w) := by
  induction as using acts_induction generalizing loops l <;>
    simp only [Act.Quiet, Act.usesAll, Act.uses, Act.runAll, Act.run, List.append_nil,
      List.forall_mem_append] at *
  case nil => rfl
  case cons a as rest first => exact (rest loops _ quiet.2).trans (first loops l quiet.1)
  case declare b => exact .of_eq (l.declare_turned _ b)
  case use u => exact l.note_other _ (quiet u List.mem_cons_self)
  case loop stmt acts inner => exact inner _ l quiet
  case each site acts inner =>
    exact (inner _ _ quiet).trans
      (.of_eq (Ledger.declareAll_turned { l with loops := l.loops ++ [site] } _ _))
  case closure expr escapes params spot acts inner =>
    refine (Ledger.leave_turned counts _ _ _ _ _).trans ((inner _ _ quiet).trans ?_)
    exact .of_eq (Ledger.declareAll_turned { l with frames := {} :: l.frames } _ _)

theorem Act.Quiet.append {as bs : List Act} (first : Act.Quiet w as) (second : Act.Quiet w bs) :
    Act.Quiet w (as ++ bs) := by
  rw [Act.Quiet, uses_acts.append]
  exact List.forall_mem_append.mpr ⟨first, second⟩

theorem Act.Quiet.none : Act.Quiet w [] := List.forall_mem_nil _

theorem Act.Quiet.inside {a : Act} {as : List Act} (quiet : Act.Quiet w as)
    (inside : a.uses = Act.usesAll as) : Act.Quiet w [a] := by
  rw [Act.Quiet, uses_acts.single, inside]
  exact quiet

theorem quiet_use {u : Use} (other : u.spot.loopVar ≠ w) : Act.Quiet w u.acts := by
  unfold Use.acts
  split
  · exact .none
  · exact List.forall_mem_singleton.mpr other

theorem quiet_declares (bs : List Nat) : Act.Quiet w (bs.map .declare) := by
  rw [Act.Quiet, uses_acts.none (by simp [Act.uses])]
  exact List.forall_mem_nil _

theorem mark_other {b : Nat} (counts : w ≠ 0) (differs : b ≠ w) (place : Bool) :
    (if place then b else 0) ≠ w := by
  split
  · exact differs
  · exact counts.symm

theorem self_declared {b : Nat} (counts : b ≠ 0) : b ∈ bindingsOf [b] :=
  List.mem_filter.mpr ⟨List.mem_cons_self, by simpa using counts⟩

theorem Course.quiet {o : Outlook} {v : Nat} {vs : List Node} {ns : List Nat} {os : List (Nat × Nat)}
    {as bs : List Act} (h : Course Eq o o v vs ns os as bs) (counts : w ≠ 0) :
    w ∉ ns → v ≠ w → Act.Quiet w as := by
  induction h with
  | nil | expr | stmt => exact fun _ _ => .none
  | append _ _ first second =>
    intro out other
    rw [List.mem_append, not_or] at out
    exact (first out.1 other).append (second out.2 other)
  | use _ mark =>
    intro _ other
    refine quiet_use ?_
    rcases mark with mine | zero
    · exact fun same => other (mine ▸ same)
    · exact fun same => counts (zero ▸ same).symm
  | closure _ _ _ inner =>
    intro out _
    rw [List.mem_append, not_or] at out
    exact (inner out.2 counts.symm).inside (by rw [Act.uses])
  | named _ _ inner =>
    intro out other
    rw [List.mem_append, not_or] at out
    exact (inner rfl out.1 other).append (quiet_declares _)
  | loop _ inner => exact fun out other => (inner out other).inside (by rw [Act.uses])
  | each _ _ _ source inner =>
    intro out other
    simp only [List.mem_append, not_or] at out
    -- the variable of the loop is declared here
    exact (source out.1 fun same => out.2.1 (same ▸ self_declared (same ▸ counts))).append
      ((inner out.2.2 other).inside (by rw [Act.uses]))

theorem expr_quiet (o : Outlook) (counts : w ≠ 0) (e : Expr) (access : Access) (spot : Spot)
    (out : w ∉ e.binds) (other : spot.loopVar ≠ w) : Act.Quiet w (e.acts o access spot) :=
  (expr_course o.agree_self e rfl (.inl rfl)).quiet counts out other

theorem stmt_quiet (o : Outlook) (counts : w ≠ 0) (s : Stmt) (out : w ∉ s.binds) :
    Act.Quiet w (s.acts o) :=
  (@stmt_course Eq o o o.agree_self s 0).quiet counts out counts.symm

theorem stmts_quiet (o : Outlook) (counts : w ≠ 0) (ss : List Stmt) (out : w ∉ Stmt.bindsAll ss) :
    Act.Quiet w (Stmt.actsAll o ss) :=
  (@stmts_course Eq o o o.agree_self ss 0).quiet counts out counts.symm

theorem iterable_quiet (o : Outlook) (counts : w ≠ 0) {info : StmtInfo} {value : Expr}
    (free : w ∉ value.binds) (differs : info.binding ≠ w) : Act.Quiet w (value.acts o .read
      { stmt := info.span
        loopVar := if (value.info?.map (·.kind.isPlace)).getD false then info.binding else 0 }) :=
  expr_quiet o counts value .read _ free (mark_other counts differs _)

theorem runAll_outside {l : Ledger} (outside : l.frames = []) (as : List Act) (loops : List Nat) :
    (Act.runAll loops as l).frames = [] := by
  have depth := (runAll_keeps as loops l).depth
  rw [outside] at depth
  exact List.length_eq_zero_iff.mp depth

def Act.Marks (w : Nat) (as : List Act) (more : List (Nat × Nat)) : Prop :=
  ∀ (loops : List Nat) (l : Ledger), l.frames = [] →
    ((Act.runAll loops as l).turned w).Perm (l.turned w ++ more)

namespace Act

variable {as bs : List Act} {xs ys : List (Nat × Nat)}

theorem Marks.append (first : Marks w as xs) (second : Marks w bs ys) :
    Marks w (as ++ bs) (xs ++ ys) := by
  intro loops l outside
  rw [runAll_append, ← List.append_assoc]
  exact (second loops _ (runAll_outside outside as loops)).trans
    ((first loops l outside).append_right _)

theorem Quiet.marks (quiet : Quiet w as) (counts : w ≠ 0) : Marks w as [] := by
  intro loops l _
  rw [List.append_nil]
  exact runAll_quiet counts loops l quiet

theorem Marks.before (first : Marks w as xs) (counts : w ≠ 0) (rest : Quiet w bs) :
    Marks w (as ++ bs) xs := by
  rw [← List.append_nil xs]
  exact first.append (rest.marks counts)

theorem Marks.loop (inner : Marks w as xs) (stmt : Nat) : Marks w [.loop stmt as] xs := by
  intro loops l outside
  rw [runAll, runAll, run]
  exact inner _ l outside

theorem Marks.each (inner : Marks w as xs) (site : LoopSite) : Marks w [.each site as] xs := by
  intro loops l outside
  have opened : (l.visit (loops.length + 1) site).frames = [] := by
    have depth := (l.visit_keeps (loops.length + 1) site).depth
    rw [outside] at depth
    exact List.length_eq_zero_iff.mp depth
  have same : (l.visit (loops.length + 1) site).turned w = l.turned w :=
    Ledger.declareAll_turned { l with loops := l.loops ++ [site] } _ _
  rw [runAll, runAll, run, ← same]
  exact inner _ _ opened

end Act

theorem use_marks (info : ExprInfo) (access : Access) {spot : Spot} (mine : spot.loopVar = w) :
    Act.Marks w (info.use access spot).acts (info.readAs access) := by
  intro loops l outside
  have bound : (info.use access spot).binding = info.binding := rfl
  by_cases missing : info.binding = 0
  · have none : info.readAs access = [] := by simp [ExprInfo.readAs, ExprInfo.occurrence, missing]
    rw [Use.acts, bound, if_pos missing, none, Act.runAll, List.append_nil]
  · have turns : ((info.use access spot).event loops.length).turns w = info.readAs access := by
      cases access <;>
        simp [Event.turns, Use.event, ExprInfo.use, EventKind.ofAccess, ExprInfo.readAs,
          ExprInfo.occurrence, missing, mine]
    rw [Use.acts, bound, if_neg missing, Act.runAll, Act.runAll, Act.run, ← turns]
    exact Ledger.note_outside outside _ _

mutual
theorem expr_marks (o : Outlook) (counts : w ≠ 0) : ∀ (e : Expr) (access : Access) (spot : Spot),
    w ∉ e.binds → spot.loopVar = w → Act.Marks w (e.acts o access spot) (e.reads o access)
  | .absent _, access, spot, _, _ => by
    rw [Expr.acts, Expr.reads]
    exact Act.Quiet.none.marks counts
  | .node info x y args inits body result, access, spot, out, mine => by
    rw [Expr.binds] at out
    rw [Expr.acts, Expr.reads]
    cases kind : info.kind <;> simp only [kind, List.mem_append, not_or] at out
    case ident => exact use_marks info access mine
    case lit => exact Act.Quiet.none.marks counts
    case field | unary => exact expr_marks o counts x _ spot out mine
    case index =>
      exact ((expr_quiet o counts y _ _ out.1 counts.symm).marks counts).append
        (expr_marks o counts x _ spot out.2 mine)
    case call => exact (use_marks info .read mine).append (exprs_mark o counts args _ 0 spot out mine)
    case methodCall =>
      exact (expr_marks o counts x _ spot out.1 mine).append
        (exprs_mark o counts args _ 0 spot out.2 mine)
    case binary | range =>
      exact (expr_marks o counts x _ spot out.1 mine).append (expr_marks o counts y _ spot out.2 mine)
    case structLit => exact inits_mark o counts inits spot out mine
    case arrayLit => exact exprs_mark o counts args _ 0 spot out mine
    case closure =>
      -- inside the mark is taken off
      have inner := (expr_quiet o counts result .move spot.inClosure out.2.1 counts.symm).append
        (stmt_quiet o counts body out.2.2)
      exact (inner.inside (by rw [Act.uses])).marks counts
theorem exprs_mark (o : Outlook) (counts : w ≠ 0) : ∀ (es : List Expr) (access : Nat → Access)
    (i : Nat) (spot : Spot), w ∉ Expr.bindsAll es → spot.loopVar = w →
      Act.Marks w (Expr.actsAll o es access i spot) (Expr.readsAll o es access i)
  | [], access, i, spot, _, _ => by
    rw [Expr.actsAll, Expr.readsAll]
    exact Act.Quiet.none.marks counts
  | e :: es, access, i, spot, out, mine => by
    rw [Expr.bindsAll, List.mem_append, not_or] at out
    rw [Expr.actsAll, Expr.readsAll]
    exact (expr_marks o counts e (access i) spot out.1 mine).append
      (exprs_mark o counts es access (i + 1) spot out.2 mine)
theorem inits_mark (o : Outlook) (counts : w ≠ 0) : ∀ (is : List FieldInit) (spot : Spot),
    w ∉ FieldInit.bindsAll is → spot.loopVar = w →
      Act.Marks w (FieldInit.actsAll o is spot) (FieldInit.readsAll o is)
  | [], spot, _, _ => by
    rw [FieldInit.actsAll, FieldInit.readsAll]
    exact Act.Quiet.none.marks counts
  | .mk _ _ value :: is, spot, out, mine => by
    rw [FieldInit.bindsAll, List.mem_append, not_or] at out
    rw [FieldInit.actsAll, FieldInit.readsAll]
    exact (expr_marks o counts value .store spot out.1 mine).append
      (inits_mark o counts is spot out.2 mine)
end

theorem iterable_marks (o : Outlook) {info : StmtInfo} {value : Expr} (counts : info.binding ≠ 0)
    (free : info.binding ∉ value.binds) : Act.Marks info.binding (value.acts o .read
      { stmt := info.span
        loopVar := if (value.info?.map (·.kind.isPlace)).getD false then info.binding else 0 })
      (value.traversed o) := by
  unfold Expr.traversed
  by_cases place : (value.info?.map (·.kind.isPlace)).getD false = true
  · rw [if_pos place, if_pos place]
    exact expr_marks o counts value .read _ free rfl
  · rw [if_neg place, if_neg place]
    exact (expr_quiet o counts value .read _ free counts.symm).marks counts

end Turned

section Loops

variable {info : StmtInfo} {value : Expr}

mutual
theorem stmt_open_site (o : Outlook) : ∀ s : Stmt, (info, value) ∈ s.openLoops →
    (⟨info.id, info.binding, value⟩ : LoopSite) ∈ Act.sitesAll (s.acts o)
  | .absent _, here => by
    rw [Stmt.openLoops] at here
    cases here
  | .node i target v body orElse, here => by
    rw [Stmt.openLoops] at here
    rw [Stmt.acts]
    cases kind : i.kind <;>
      simp only [kind, List.mem_cons, List.mem_append, List.not_mem_nil, sites_acts.append, sites_acts.single,
        Act.sites] at here ⊢
    case branch =>
      exact here.imp (fun inner => .inr (stmts_open_site o body inner)) (stmt_open_site o orElse)
    case whileLoop => exact .inr (stmts_open_site o body here)
    case block => exact stmts_open_site o body here
    case forLoop =>
      refine .inr (here.imp (fun own => ?_) (stmts_open_site o body))
      obtain ⟨rfl, rfl⟩ := Prod.mk.inj own
      rfl
theorem stmts_open_site (o : Outlook) : ∀ ss : List Stmt, (info, value) ∈ Stmt.openLoopsAll ss →
    (⟨info.id, info.binding, value⟩ : LoopSite) ∈ Act.sitesAll (Stmt.actsAll o ss)
  | [], here => by
    rw [Stmt.openLoopsAll] at here
    cases here
  | s :: ss, here => by
    rw [Stmt.openLoopsAll, List.mem_append] at here
    rw [Stmt.actsAll, sites_acts.append, List.mem_append]
    exact here.imp (stmt_open_site o s) (stmts_open_site o ss)
end

theorem site_declared {site : LoopSite} {as : List Act} (there : site ∈ Act.sitesAll as)
    (counts : site.var ≠ 0) : site.var ∈ Act.declaredAll as :=
  (sitesAll_declared as).subset
    (List.mem_filter.mpr ⟨List.mem_map_of_mem there, by simpa using counts⟩)

theorem open_declared (o : Outlook) {s : Stmt} (here : (info, value) ∈ s.openLoops) (counts : info.binding ≠ 0) :
    info.binding ∈ s.binds := by
  rw [← stmt_declared o s]
  exact site_declared (stmt_open_site o s here) counts

theorem open_all_declared (o : Outlook) {ss : List Stmt} (here : (info, value) ∈ Stmt.openLoopsAll ss)
    (counts : info.binding ≠ 0) : info.binding ∈ Stmt.bindsAll ss := by
  rw [← stmts_declared o ss]
  exact site_declared (stmts_open_site o ss here) counts

mutual
/-- When every binding is declared once, a variable marks what its loop runs over and nothing else. -/
theorem stmt_marks (o : Outlook) (counts : info.binding ≠ 0) : ∀ s : Stmt, s.binds.Nodup →
    (info, value) ∈ s.openLoops → Act.Marks info.binding (s.acts o) (value.traversed o)
  | .absent _, _, here => by
    rw [Stmt.openLoops] at here
    cases here
  | .node i target v body orElse, once, here => by
    rw [Stmt.openLoops] at here
    rw [Stmt.binds] at once
    rw [Stmt.acts]
    have tested : info.binding ∉ v.binds →
        Act.Marks info.binding (v.acts o .read { stmt := i.span }) [] :=
      fun free => (expr_quiet o counts v .read _ free counts.symm).marks counts
    cases kind : i.kind <;> simp only [kind, List.mem_cons, List.mem_append, List.not_mem_nil] at here once
    case branch =>
      obtain ⟨before, after, apart⟩ := List.nodup_append.mp once
      obtain ⟨_, within, front⟩ := List.nodup_append.mp before
      rcases here with inner | other
      · have declared := open_all_declared o inner counts
        exact ((tested fun there => front _ there _ declared rfl).append
          (stmts_mark o counts body within inner)).before counts (stmt_quiet o counts orElse
            fun there => apart _ (List.mem_append_right _ declared) _ there rfl)
      · have declared := open_declared o other counts
        have free : info.binding ∉ v.binds ++ Stmt.bindsAll body :=
          fun there => apart _ there _ declared rfl
        rw [List.mem_append, not_or] at free
        exact ((tested free.1).before counts (stmts_quiet o counts body free.2)).append
          (stmt_marks o counts orElse after other)
    case whileLoop =>
      obtain ⟨_, within, apart⟩ := List.nodup_append.mp once
      have declared := open_all_declared o here counts
      exact ((tested fun there => apart _ there _ declared rfl).append
        (stmts_mark o counts body within here)).loop i.id
    case block => exact stmts_mark o counts body once here
    case forLoop =>
      obtain ⟨_, rest, apart⟩ := List.nodup_append.mp once
      obtain ⟨_, within, own⟩ := List.nodup_append.mp rest
      rcases here with mine | inner
      · obtain ⟨rfl, rfl⟩ := Prod.mk.inj mine
        have declared := self_declared counts
        have free : info.binding ∉ value.binds :=
          fun there => apart _ there _ (List.mem_append_left _ declared) rfl
        have inner := stmts_quiet o counts body fun there => own _ declared _ there rfl
        exact (iterable_marks o counts free).before counts (inner.inside (by rw [Act.uses]))
      · have declared := open_all_declared o inner counts
        have free : info.binding ∉ v.binds :=
          fun there => apart _ there _ (List.mem_append_right _ declared) rfl
        have differs : i.binding ≠ info.binding := by
          intro same
          exact own _ (same ▸ self_declared (same ▸ counts)) _ declared rfl
        exact ((iterable_quiet o counts free differs).marks counts).append
          ((stmts_mark o counts body within inner).each ⟨i.id, i.binding, v⟩)
theorem stmts_mark (o : Outlook) (counts : info.binding ≠ 0) : ∀ ss : List Stmt,
    (Stmt.bindsAll ss).Nodup → (info, value) ∈ Stmt.openLoopsAll ss →
      Act.Marks info.binding (Stmt.actsAll o ss) (value.traversed o)
  | [], _, here => by
    rw [Stmt.openLoopsAll] at here
    cases here
  | s :: ss, once, here => by
    rw [Stmt.openLoopsAll] at here
    rw [Stmt.bindsAll] at once
    obtain ⟨front, back, apart⟩ := List.nodup_append.mp once
    rw [Stmt.actsAll]
    rcases List.mem_append.mp here with first | later
    · have declared := open_declared o first counts
      exact (stmt_marks o counts s front first).before counts
        (stmts_quiet o counts ss fun there => apart _ declared _ there rfl)
    · have declared := open_all_declared o later counts
      have quiet := stmt_quiet o counts s fun there => apart _ there _ declared rfl
      exact (quiet.marks counts).append (stmts_mark o counts ss back later)
end

end Loops

variable {f : FuncDecl} {w : Nat} {front back : List LoopSite} {site : LoopSite}

theorem collect_turned (once : f.binds.Nodup) (table : Signatures) {info : StmtInfo}
    {value : Expr} (here : (info, value) ∈ Stmt.openLoopsAll f.body) (counts : info.binding ≠ 0) :
    ((f.collect table).turned info.binding).Perm (value.traversed (f.outlook table)) := by
  have body := stmts_mark (f.outlook table) counts f.body (List.nodup_append.mp once).2.1 here
  have run := ((quiet_declares f.inputs).marks counts).append body [] {} rfl
  rw [Collection.turned, FuncDecl.collect_eq, (f.collectWith_ledger _).1]
  exact run

theorem retarget_turned {v : Nat} (other : v ≠ w) (c : Collection) :
    (c.retarget v).turned w = c.turned w := by
  have kept : ∀ e : Event, (e.retarget v).expr = e.expr ∧
      ((e.retarget v).retarget w ≠ e.retarget v ↔ e.retarget w ≠ e) := by
    intro e
    rcases retarget_cases v e with same | ⟨mine, -, changed⟩
    · rw [same]
      exact ⟨rfl, Iff.rfl⟩
    · rw [retarget_ne_iff, retarget_ne_iff, changed]
      exact ⟨rfl, fun both => absurd (mine.symm.trans both.1) other,
        fun both => absurd (mine.symm.trans both.1) other⟩
  rw [Collection.turned, Collection.retarget, List.flatMap_map, Collection.turned]
  congr 1
  funext u
  unfold Usage.turned
  rw [List.filter_map, List.map_map]
  simp only [Function.comp_def, kept]

theorem loops_turned (m : Module) (ls : List LoopSite) (others : ∀ l ∈ ls, l.var ≠ w)
    (s : Collection × Verdict) : (ls.foldr (resolveLoop m) s).1.turned w = s.1.turned w := by
  induction ls with
  | nil => rfl
  | cons l ls ih =>
    rw [List.forall_mem_cons] at others
    rw [List.foldr_cons, resolveLoop, ← ih others.2]
    dsimp only
    split
    · exact retarget_turned others.1 _
    · rfl

theorem settle_lookup_other (m : Module) (c : Collection) (v : Verdict) {b : Nat} (other : b ≠ w) :
    (v.settle m c b).modes.lookup w = v.modes.lookup w := by
  unfold Verdict.settle
  split
  · rfl
  · rw [Verdict.add, lookup_setKey, if_neg other.symm]

theorem loops_lookup_other (m : Module) (ls : List LoopSite) (others : ∀ l ∈ ls, l.var ≠ w)
    (s : Collection × Verdict) :
    (ls.foldr (resolveLoop m) s).2.modes.lookup w = s.2.modes.lookup w := by
  induction ls with
  | nil => rfl
  | cons l ls ih =>
    rw [List.forall_mem_cons] at others
    exact (settle_lookup_other m _ _ others.1).trans (ih others.2)

theorem settleNew_lookup_known (m : Module) (c : Collection) (bs : List Nat) {v : Verdict}
    {mode : Mode} (known : v.modes.lookup w = some mode) :
    (bs.foldl (Verdict.settleNew m c) v).modes.lookup w = some mode := by
  refine List.foldlRecOn (motive := fun v : Verdict => v.modes.lookup w = some mode) bs _ known
    fun v known b _ => ?_
  unfold Verdict.settleNew
  split
  · exact known
  · rename_i missing
    rw [settle_lookup_other, known]
    rintro rfl
    exact missing (known ▸ rfl)

/-- A loop variable that no loop before it declares again has the mode that its own loop gives it. -/
theorem resolve_loop_mode {m : Module} {c : Collection}
    (split : c.loops = front ++ site :: back) (others : ∀ l ∈ front, l.var ≠ site.var) {bd : Binding}
    (known : m.binding? site.var = some bd) :
    let s := back.foldr (resolveLoop m) (c, {})
    (c.resolve m).2.mode site.var = (s.2.settle m s.1 site.var).mode site.var := by
  intro s
  have own : (s.2.settle m s.1 site.var).modes.lookup site.var =
      some (bd.settle ((s.1.usage? site.var).getD { binding := site.var })).mode := by
    simp only [Verdict.settle, known, Verdict.add, lookup_setKey, if_true]
  have looped : (c.looped m).2.modes.lookup site.var =
      (s.2.settle m s.1 site.var).modes.lookup site.var := by
    rw [Collection.looped, split, List.foldr_append, loops_lookup_other m front others]
    rfl
  rw [Verdict.mode, (c.resolve_eq m).2.1, Collection.settled,
    settleNew_lookup_known m _ _ (looped.trans own), Verdict.mode, own]

theorem other_loop_vars (once : f.binds.Nodup) {table : Signatures}
    (split : (f.collect table).loops = front ++ site :: back) (counts : site.var ≠ 0) :
    (∀ l ∈ front, l.var ≠ site.var) ∧ ∀ l ∈ back, l.var ≠ site.var := by
  have distinct := (loops_declared f table).nodup once
  rw [split, List.map_append, List.map_cons, bindingsOf_append] at distinct
  have own : bindingsOf (site.var :: back.map (·.var)) = site.var :: bindingsOf (back.map (·.var)) :=
    List.filter_cons_of_pos (by simpa using counts)
  rw [own, List.nodup_append, List.nodup_cons] at distinct
  obtain ⟨-, ⟨later, -⟩, earlier⟩ := distinct
  have listed : ∀ {ls : List LoopSite} {l : LoopSite}, l ∈ ls → l.var = site.var →
      site.var ∈ bindingsOf (ls.map (·.var)) := by
    intro ls l there same
    exact List.mem_filter.mpr ⟨same ▸ List.mem_map_of_mem there, by simpa using counts⟩
  exact ⟨fun l there same => earlier _ (listed there same) _ List.mem_cons_self rfl,
    fun l there same => later (listed there same)⟩

theorem reads_identifier (o : Outlook) : ∀ e : Expr, e.base.isKind .ident = true →
    e.reads o .read = e.rootRead
  | .absent _, named => by cases named
  | .node info x y args inits body result, named => by
    cases kind : info.kind with
    | ident =>
      simp only [Expr.reads, Expr.rootRead, Expr.root, Expr.base, kind, ExprInfo.readAs, if_true]
      rfl
    | field | index =>
      have inner : x.base.isKind .ident = true := by
        simpa only [Expr.base, kind] using named
      have same : x.reads o Access.read.ofPart = x.rootRead := reads_identifier o x inner
      simpa only [Expr.reads, Expr.rootRead, Expr.root, Expr.base, kind] using same
    | lit | call | methodCall | binary | unary | range | structLit | arrayLit | closure =>
      simp only [Expr.base, kind, Expr.isKind, Expr.info?] at named
      cases named

theorem root_unnamed : ∀ e : Expr, e.base.isKind .ident = false → e.root = 0
  | .absent _, _ => rfl
  | .node info x y args inits body result, unnamed => by
    cases kind : info.kind with
    | ident =>
      simp only [Expr.base, kind, Expr.isKind, Expr.info?] at unnamed
      cases unnamed
    | field | index =>
      have inner : x.base.isKind .ident = false := by
        simpa only [Expr.base, kind] using unnamed
      simpa only [Expr.root, kind] using root_unnamed x inner
    | lit | call | methodCall | binary | unary | range | structLit | arrayLit | closure =>
      simp only [Expr.root, kind]

theorem named_place : ∀ e : Expr, e.base.isKind .ident = true →
    (e.info?.map (·.kind.isPlace)).getD false = true
  | .absent _, named => by cases named
  | .node info x y args inits body result, named => by
    cases kind : info.kind with
    | ident | field | index => simp [Expr.info?, kind, ExprKind.isPlace]
    | lit | call | methodCall | binary | unary | range | structLit | arrayLit | closure =>
      simp only [Expr.base, kind, Expr.isKind, Expr.info?] at named
      cases named

theorem traversed_root_iff (o : Outlook) (e : Expr) :
    (e.traversed o).Perm e.rootRead ↔ e.base.isKind .ident = true ∨ e.traversed o = [] := by
  cases named : e.base.isKind .ident with
  | true =>
    have same : e.traversed o = e.rootRead := by
      rw [Expr.traversed, if_pos (named_place e named), reads_identifier o e named]
    exact ⟨fun _ => .inl rfl, fun _ => .of_eq same⟩
  | false =>
    have none : e.rootRead = [] := if_pos (root_unnamed e named)
    rw [none, List.perm_nil]
    exact ⟨.inr, fun h => h.resolve_left nofun⟩

/-- Settling a loop that modifies its variable, for every function in which each binding is declared
once. The reads that become modifications are those in the iterable outside of closures and indices, as
far as it is a place, and no other event changes. They are the one read of the binding at the root
exactly when the projections start from an identifier or nothing is read below them. -/
theorem modified_loop_turns_reads {f : FuncDecl} (once : f.binds.Nodup) (m : Module)
    (table : Signatures) {info : StmtInfo} {value : Expr}
    (here : (info, value) ∈ Stmt.openLoopsAll f.body)
    (modified : (f.analyze m table).verdict.mode info.binding = .exclusive) :
    ∃ front back, (f.collect table).loops = front ++ ⟨info.id, info.binding, value⟩ :: back ∧
      let before := back.foldr (resolveLoop m) (f.collect table, {})
      let after := resolveLoop m ⟨info.id, info.binding, value⟩ before
      (f.analyze m table).uses = (front.foldr (resolveLoop m) after).1 ∧
      after.1 = before.1.retarget info.binding ∧
      (∀ e : Event, e.retarget info.binding = e ∨
        e.kind = .read ∧ e.retarget info.binding = { e with kind := .mutate }) ∧
      (before.1.turned info.binding).Perm (value.traversed (f.outlook table)) ∧
      ((before.1.turned info.binding).Perm value.rootRead ↔
        value.base.isKind .ident = true ∨ value.traversed (f.outlook table) = []) := by
  have found : ((f.analyze m table).verdict.modes.lookup info.binding) = some .exclusive := by
    rw [Verdict.mode] at modified
    cases known : (f.analyze m table).verdict.modes.lookup info.binding with
    | none => rw [known] at modified; cases modified
    | some mode => rw [known] at modified; exact congrArg some modified
  obtain ⟨bd, _, known, _⟩ := resolve_given (m := m) (f.collect table) _ _ found
  have counts : info.binding ≠ 0 := by
    intro zero
    rw [zero] at known
    cases known
  have site : (⟨info.id, info.binding, value⟩ : LoopSite) ∈ (f.collect table).loops := by
    rw [FuncDecl.collect_eq, (f.collectWith_ledger _).2, runAll_loops, List.nil_append,
      FuncDecl.acts, sites_acts.append]
    exact List.mem_append_right _ (stmts_open_site _ f.body here)
  obtain ⟨front, back, split⟩ := List.append_of_mem site
  have others := other_loop_vars once split counts
  have turned := loops_turned m back others.2 (f.collect table, {})
  have same := collect_turned once table here counts
  refine ⟨front, back, split, ?_, ?_, ?_, ?_, ?_⟩
  · have uses : (f.analyze m table).uses =
        ((f.collect table).loops.foldr (resolveLoop m) (f.collect table, {})).1 := rfl
    rw [uses, split, List.foldr_append]
    rfl
  · rw [resolveLoop]
    exact if_pos ((resolve_loop_mode split others.1 known).symm.trans modified)
  · intro e
    exact (retarget_cases info.binding e).imp id And.right
  · rw [turned]
    exact same
  · rw [turned, ← traversed_root_iff]
    exact ⟨same.symm.trans, same.trans⟩

namespace Sample

def projection (kind : ExprKind) (id : Nat) (x y : Expr) : Expr :=
  .node { Sketch.blank kind .string with id, name := "rows" } x y [] [] (.absent 0) (.absent 0)

def tidying : FuncDecl :=
  { id := 1, name := "tidy", receiver := 0, owner := "", params := [1, 2], result := .string
    body := [
      stmt 1 .forLoop 3
        (projection .index 1 (projection .field 2 (name 3 1) (.absent 0)) (name 4 2)) [
        .node ⟨2, .assign, Range.zero, 0, "+="⟩ (name 5 3) (.absent 0) [] (.absent 0)]]
    isExtern := false, span := Range.zero }

def tidied : Module :=
  { name := "tidied", path := "tidied.kl", file := 0, structs := [], funcs := [tidying], exprs := #[]
    stmts := #[]
    bindings := #[
      ⟨1, "grid", .param, .string, false, .none, 0, Range.zero⟩,
      ⟨2, "part", .param, .string, false, .none, 0, Range.zero⟩,
      ⟨3, "row", .loop, .string, false, .none, 0, Range.zero⟩] }

def filling : FuncDecl :=
  { id := 1, name := "fill", receiver := 0, owner := "", params := [1], result := .string
    body := [
      stmt 1 .forLoop 2
        (projection .field 1
          (.node { Sketch.blank .call .string with id := 2, target := "load" } (.absent 0) (.absent 0)
            [name 3 1] [] (.absent 0) (.absent 0)) (.absent 0)) [
        .node ⟨2, .assign, Range.zero, 0, "+="⟩ (name 4 2) (.absent 0) [] (.absent 0)]]
    isExtern := false, span := Range.zero }

def filled : Module :=
  { name := "filled", path := "filled.kl", file := 0, structs := [], funcs := [filling], exprs := #[]
    stmts := #[]
    bindings := #[
      ⟨1, "key", .param, .string, false, .none, 0, Range.zero⟩,
      ⟨2, "row", .loop, .string, false, .none, 0, Range.zero⟩] }

end Sample

theorem tidying_turns_root :
    ∃ front back, (Sample.tidying.collect []).loops = front ++
        ⟨1, 3, Sample.projection .index 1 (Sample.projection .field 2 (Sample.name 3 1) (.absent 0))
          (Sample.name 4 2)⟩ :: back ∧
      ((back.foldr (resolveLoop Sample.tidied) (Sample.tidying.collect [], {})).1.turned 3).Perm
        [(1, 3)] := by
  obtain ⟨front, back, split, -, -, -, turned, -⟩ := @modified_loop_turns_reads Sample.tidying
    (by decide) Sample.tidied [] ⟨1, .forLoop, Range.zero, 3, "="⟩ _ List.mem_cons_self (by decide)
  exact ⟨front, back, split, turned⟩

/-- The argument of a call inside an iterable is only read, and becomes modified. -/
theorem argument_turned :
    Sample.filling.binds.Nodup ∧ (Sample.filling.analyze Sample.filled []).verdict.mode 2 = .exclusive ∧
      (Sample.filling.collect []).loops.map (fun l => (l.var, l.iter.root)) = [(2, 0)] ∧
      ((Sample.filling.collect []).events 1).map (·.kind) = [.read] ∧
      ((Sample.filling.analyze Sample.filled []).uses.events 1).map (·.kind) = [.mutate] ∧
      (Sample.filling.analyze Sample.filled []).verdict.mode 1 = .exclusive := by
  decide

end Tenure
