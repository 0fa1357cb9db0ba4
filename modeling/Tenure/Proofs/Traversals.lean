import Mathlib.Data.List.Perm.Subperm
import Tenure.Proofs.Arena
import Tenure.Proofs.Modes
import Tenure.Proofs.Trees

/- Two ways through one body. Collecting uses visits nodes and writing text writes nodes, each by its
   own rules about which parts a kind has. What is written has been visited, and in accepted programs
   whose closures have a body or a result but not both, what is visited is written. -/
namespace Tenure

mutual
/-- The nodes that have text of their own. A closure is written with its body, or with its result when
it has none. -/
def Expr.written : Expr → List Node
  | .absent _ => []
  | .node info x y args inits body result =>
    .expr (.node info x y args inits body result) ::
      match info.kind with
      | .ident | .lit => []
      | .call | .arrayLit => Expr.writtenAll args
      | .methodCall => x.written ++ Expr.writtenAll args
      | .field | .unary => x.written
      | .index | .binary | .range => x.written ++ y.written
      | .structLit => FieldInit.writtenAll inits
      | .closure => if body.info?.isSome then body.written else result.written
def Expr.writtenAll : List Expr → List Node
  | [] => []
  | e :: es => e.written ++ Expr.writtenAll es
def FieldInit.writtenAll : List FieldInit → List Node
  | [] => []
  | .mk _ _ value :: is => value.written ++ FieldInit.writtenAll is
def Stmt.written : Stmt → List Node
  | .absent _ => []
  | .node info target value body orElse =>
    .stmt (.node info target value body orElse) ::
      match info.kind with
      | .letVar | .give => if value.id = 0 then [] else value.written
      | .assign => target.written ++ value.written
      | .eval => value.written
      | .branch => value.written ++ Stmt.writtenAll body ++ orElse.written
      | .whileLoop | .forLoop => value.written ++ Stmt.writtenAll body
      | .leave | .again => []
      | .block => Stmt.writtenAll body
def Stmt.writtenAll : List Stmt → List Node
  | [] => []
  | s :: ss => s.written ++ Stmt.writtenAll ss
end

def Node.self : Node → List Node
  | .expr (.absent _) | .stmt (.absent _) => []
  | v => [v]

def Node.elim (E : Expr → List Node) (S : Stmt → List Node) : Node → List Node
  | .expr e => E e
  | .stmt s => S s

section Gathered

theorem visits_exprs : Gathers Expr.visitsAll Expr.visits := ⟨rfl, fun _ _ => rfl⟩

theorem visits_inits : Gathers FieldInit.visitsAll (·.value.visits) := ⟨rfl, by rintro ⟨⟩ _; rfl⟩

theorem visits_stmts : Gathers Stmt.visitsAll Stmt.visits := ⟨rfl, fun _ _ => rfl⟩

theorem written_exprs : Gathers Expr.writtenAll Expr.written := ⟨rfl, fun _ _ => rfl⟩

theorem written_inits : Gathers FieldInit.writtenAll (·.value.written) :=
  ⟨rfl, by rintro ⟨⟩ _; rfl⟩

theorem written_stmts : Gathers Stmt.writtenAll Stmt.written := ⟨rfl, fun _ _ => rfl⟩

theorem nodes_exprs : Gathers Expr.nodesAll Expr.nodes := ⟨rfl, fun _ _ => rfl⟩

theorem nodes_inits : Gathers FieldInit.nodesAll (·.value.nodes) := ⟨rfl, by rintro ⟨⟩ _; rfl⟩

theorem nodes_stmts : Gathers Stmt.nodesAll Stmt.nodes := ⟨rfl, fun _ _ => rfl⟩

end Gathered

theorem written_visited : Inherits (fun e => e.written ⊆ e.visits) fun s => s.written ⊆ s.visits where
  noExpr _ := List.nil_subset _
  noStmt _ := List.nil_subset _
  expr info x y args inits body result hx hy hargs hinits hbody hresult := by
    have hargs := written_exprs.subset visits_exprs hargs
    have hinits := written_inits.subset visits_inits hinits
    rw [Expr.written, Expr.visits]
    cases info.kind <;> grind
  stmt info target value body orElse htarget hvalue hbody horElse := by
    have hbody := written_stmts.subset visits_stmts hbody
    rw [Stmt.written, Stmt.visits]
    cases info.kind <;> grind

theorem stmts_written_visited (ss : List Stmt) : Stmt.writtenAll ss ⊆ Stmt.visitsAll ss :=
  written_stmts.subset visits_stmts (written_visited.onStmts ss)

theorem visits_nodes : Inherits (fun e => e.visits ⊆ e.nodes) fun s => s.visits ⊆ s.nodes where
  noExpr _ := List.nil_subset _
  noStmt _ := List.nil_subset _
  expr info x y args inits body result hx hy hargs hinits hbody hresult := by
    have hargs := visits_exprs.subset nodes_exprs hargs
    have hinits := visits_inits.subset nodes_inits hinits
    rw [Expr.visits, Expr.nodes]
    cases info.kind <;> grind
  stmt info target value body orElse htarget hvalue hbody horElse := by
    have hbody := visits_stmts.subset nodes_stmts hbody
    rw [Stmt.visits, Stmt.nodes]
    cases info.kind <;> grind

theorem stmts_visits_nodes (ss : List Stmt) : Stmt.visitsAll ss ⊆ Stmt.nodesAll ss :=
  visits_stmts.subset nodes_stmts (visits_nodes.onStmts ss)

def Node.Stored (a : Document.Arena) : Node → Prop
  | .expr e => ∃ info, e.info? = some info ∧ info.id ≠ 0 ∧ a.exprs[info.id - 1]? = some e
  | .stmt s => ∃ info, s.info? = some info ∧ info.id ≠ 0 ∧ a.stmts[info.id - 1]? = some s

variable {e : Expr} {a : Document.Arena} {ss : List Stmt} {vs : List Node} {ns : List Nat}
  {os : List (Nat × Nat)} {as bs : List Act}

theorem Expr.id_eq {info : ExprInfo} (there : e.info? = some info) : e.id = info.id := by
  cases e with
  | absent => exact absurd there nofun
  | node => exact congrArg ExprInfo.id (Option.some.inj there)

theorem Stmt.id_eq {s : Stmt} {info : StmtInfo} (there : s.info? = some info) : s.id = info.id := by
  cases s with
  | absent => exact absurd there nofun
  | node => exact congrArg StmtInfo.id (Option.some.inj there)

section Stored

variable {a : Document.Arena}

theorem stored_expr_unique {d e : Expr} (hd : (Node.expr d).Stored a) (he : (Node.expr e).Stored a)
    (same : d.id = e.id) : d = e := by
  obtain ⟨i, infoD, -, atD⟩ := hd
  obtain ⟨j, infoE, -, atE⟩ := he
  rw [← Expr.id_eq infoD, same] at atD
  rw [← Expr.id_eq infoE] at atE
  exact Option.some.inj (atD.symm.trans atE)

theorem stored_stmt_unique {s t : Stmt} (hs : (Node.stmt s).Stored a) (ht : (Node.stmt t).Stored a)
    (same : s.id = t.id) : s = t := by
  obtain ⟨i, infoS, -, atS⟩ := hs
  obtain ⟨j, infoT, -, atT⟩ := ht
  rw [← Stmt.id_eq infoS, same] at atS
  rw [← Stmt.id_eq infoT] at atT
  exact Option.some.inj (atS.symm.trans atT)

end Stored

def Node.within (E : Expr → List Node) (S : Stmt → List Node) (v : Node) : List Node :=
  v.self ++ v.parts.flatMap (Node.elim E S)

/-- A way through a tree: it meets a node and then its parts, each at most once. -/
def Walks (E : Expr → List Node) (S : Stmt → List Node) : Prop :=
  ∀ v : Node, (v.elim E S).Subperm (v.within E S)

section Walks

variable {E : Expr → List Node} {S : Stmt → List Node}

theorem expr_within (info : ExprInfo) (x y : Expr) (args : List Expr) (inits : List FieldInit)
    (body : Stmt) (result : Expr) :
    (Node.expr (.node info x y args inits body result)).within E S =
      .expr (.node info x y args inits body result) ::
        (E x ++ (E y ++ (args.flatMap E ++ (inits.flatMap (E ·.value) ++ (S body ++ E result))))) := by
  simp [Node.within, Node.self, Node.parts, List.flatMap_map]
  rfl

theorem stmt_within (info : StmtInfo) (target value : Expr) (body : List Stmt) (orElse : Stmt) :
    (Node.stmt (.node info target value body orElse)).within E S =
      .stmt (.node info target value body orElse) ::
        (E target ++ (E value ++ (body.flatMap S ++ S orElse))) := by
  simp [Node.within, Node.self, Node.parts, List.flatMap_map]
  rfl

theorem nodes_walk : Walks Expr.nodes Stmt.nodes := by
  classical
  simp only [Walks, List.subperm_iff_count]
  rintro ((_ | info) | (_ | info)) u
  · exact Nat.zero_le _
  · rw [Node.elim, Expr.nodes, nodes_exprs.flatMap, nodes_inits.flatMap, expr_within]
    cases info.kind <;> simp [List.count_cons] <;> omega
  · exact Nat.zero_le _
  · rw [Node.elim, Stmt.nodes, nodes_stmts.flatMap, stmt_within]
    cases info.kind <;> simp [List.count_cons] <;> omega

theorem visits_walk : Walks Expr.visits Stmt.visits := by
  classical
  simp only [Walks, List.subperm_iff_count]
  rintro ((_ | info) | (_ | info)) u
  · exact Nat.zero_le _
  · rw [Node.elim, Expr.visits, visits_exprs.flatMap, visits_inits.flatMap, expr_within]
    cases info.kind <;> simp [List.count_cons] <;> omega
  · exact Nat.zero_le _
  · rw [Node.elim, Stmt.visits, visits_stmts.flatMap, stmt_within]
    cases info.kind <;> simp [List.count_cons] <;> omega

theorem written_walk : Walks Expr.written Stmt.written := by
  classical
  simp only [Walks, List.subperm_iff_count]
  rintro ((_ | info) | (_ | info)) u
  · exact Nat.zero_le _
  · rw [Node.elim, Expr.written, written_exprs.flatMap, written_inits.flatMap, expr_within]
    cases info.kind <;> simp [List.count_cons] <;> grind
  · exact Nat.zero_le _
  · rw [Node.elim, Stmt.written, written_stmts.flatMap, stmt_within]
    cases info.kind <;> simp [List.count_cons] <;> grind

theorem Walks.stored (walks : Walks E S) {a : Document.Arena} (v : Node) :
     v.Filed a → ∀ u ∈ v.elim E S, u.Stored a := by
  induction v using Node.parts_induction with
  | step v ih =>
    intro filed u member
    rcases List.mem_append.mp ((walks v).subset member) with here | inside
    · rcases v with (_ | info) | (_ | info)
      · cases here
      · cases List.mem_singleton.mp here
        exact ⟨info, rfl, filed.1, filed.2.1⟩
      · cases here
      · cases List.mem_singleton.mp here
        exact ⟨info, rfl, filed.1, filed.2.1⟩
    · obtain ⟨p, part, met⟩ := List.mem_flatMap.mp inside
      exact ih p part (filed.parts p part) u met

end Walks

theorem stmts_nodes_stored (filed : Stmt.AllFiled a ss) : ∀ n ∈ Stmt.nodesAll ss, n.Stored a :=
  nodes_stmts.all fun s member => nodes_walk.stored (.stmt s) (Stmt.allFiled_iff.mp filed s member)

theorem stmts_visits_stored (filed : Stmt.AllFiled a ss) : ∀ n ∈ Stmt.visitsAll ss, n.Stored a :=
  fun n member => stmts_nodes_stored filed n (stmts_visits_nodes ss member)

def Expr.isForked : Expr → Bool
  | .absent _ => false
  | .node info _ _ _ _ body result =>
    info.kind = .closure && body.info?.isSome && result.info?.isSome

theorem expr_visits_absent (none : e.info?.isSome = false) : e.visits = [] := by
  cases e with
  | absent => rw [Expr.visits]
  | node => exact absurd none nofun

theorem stmt_visits_absent {s : Stmt} (none : s.info?.isSome = false) : s.visits = [] := by
  cases s with
  | absent => rw [Stmt.visits]
  | node => exact absurd none nofun

theorem filed_absent (filed : e.Filed a) (zero : e.id = 0) : e.info?.isSome = false := by
  cases e with
  | absent => rfl
  | node => exact absurd zero filed.1

section Single

variable {a : Document.Arena} (single : ∀ e ∈ a.exprs, e.isForked = false)
include single

theorem visits_written : Inherits (fun e => e.Filed a → e.visits ⊆ e.written)
    fun s => s.Filed a → s.visits ⊆ s.written where
  noExpr _ _ := List.nil_subset _
  noStmt _ _ := List.nil_subset _
  expr info x y args inits body result hx hy hargs hinits hbody hresult filed := by
    obtain ⟨proper, here, fx, fy, fargs, finits, fbody, fresult⟩ := filed
    have one := single _ (Array.mem_of_getElem? here)
    have hargs := visits_exprs.subset written_exprs
      fun e member => hargs e member (Expr.allFiled_iff.mp fargs e member)
    have hinits := visits_inits.subset written_inits
      fun i member => hinits i member (FieldInit.allFiled_iff.mp finits i member)
    have inner : info.kind = .closure → result.visits ++ body.visits ⊆
        if body.info?.isSome then body.written else result.written := by
      intro kind
      simp only [Expr.isForked, kind, decide_true, Bool.true_and, Bool.and_eq_false_iff] at one
      split
      · rename_i blocked
        rcases one with bare | plain
        · cases blocked.symm.trans bare
        · rw [expr_visits_absent plain]
          exact hbody fbody
      · rename_i bare
        rw [stmt_visits_absent (Bool.not_eq_true _ ▸ bare), List.append_nil]
        exact hresult fresult
    rw [Expr.visits, Expr.written]
    cases kind : info.kind <;> grind
  stmt info target value body orElse htarget hvalue hbody horElse filed := by
    obtain ⟨proper, here, ftarget, fvalue, fbody, felse⟩ := filed
    have assigned : value.visits ⊆ if value.id = 0 then [] else value.written := by
      split
      · rename_i zero
        rw [expr_visits_absent (filed_absent fvalue zero)]
        exact List.nil_subset _
      · exact hvalue fvalue
    have hbody := visits_stmts.subset written_stmts
      fun s member => hbody s member (Stmt.allFiled_iff.mp fbody s member)
    rw [Stmt.visits, Stmt.written]
    cases info.kind <;> grind

theorem stmts_visits_written {ss : List Stmt} (filed : Stmt.AllFiled a ss) :
    Stmt.visitsAll ss ⊆ Stmt.writtenAll ss :=
  visits_stmts.subset written_stmts
    fun s member => (visits_written single).onStmt s (Stmt.allFiled_iff.mp filed s member)

end Single

def Node.site? : Node → Option LoopSite
  | .stmt (.node info _ value _ _) =>
    if info.kind = .forLoop then some ⟨info.id, info.binding, value⟩ else none
  | _ => none

def Node.occurrence : Node → List (Nat × Nat)
  | .expr (.node info ..) =>
    if info.kind = .ident ∨ info.kind = .call then info.occurrence else []
  | _ => []

section Sites

theorem sites_acts : Gathers Act.sitesAll Act.sites := ⟨rfl, fun _ _ => rfl⟩

theorem sitesAll_declares (bs : List Nat) : Act.sitesAll (bs.map .declare) = [] :=
  sites_acts.none (by simp [Act.sites])

theorem sitesAll_use (u : Use) : Act.sitesAll u.acts = [] := by
  unfold Use.acts
  split <;> rfl

end Sites

theorem Course.sites {o : Outlook} {w : Nat} (h : Course Eq o o w vs ns os as bs) :
    Act.sitesAll as = vs.filterMap Node.site? := by
  induction h with
  | nil | expr => rw [Act.sitesAll]; rfl
  | stmt plain =>
    rw [Act.sitesAll, List.filterMap_cons_none (by rw [Node.site?, if_neg fun h => plain (.inr h)]),
      List.filterMap_nil]
  | append _ _ first second => rw [sites_acts.append, List.filterMap_append, first, second]
  | use => exact sitesAll_use _
  | closure _ _ _ inner => rw [sites_acts.single, Act.sites, inner, List.filterMap_cons_none rfl]
  | named kind _ inner =>
    rw [List.filterMap_cons_none (by simp [Node.site?, kind]), sites_acts.append, inner rfl,
      sitesAll_declares, List.append_nil]
  | loop _ inner => rw [sites_acts.single, Act.sites, inner]
  | each kind _ _ source inner =>
    rw [sites_acts.append, sites_acts.single, Act.sites, List.filterMap_append, source, inner,
      List.filterMap_cons_some (by rw [Node.site?, if_pos kind])]

theorem Course.occurrences {o : Outlook} {w : Nat} (h : Course Eq o o w vs ns os as bs) :
    vs.flatMap Node.occurrence = os := by
  induction h with
  | nil | stmt => rfl
  | append _ _ first second => rw [List.flatMap_append, first, second]
  | use kind => rw [List.flatMap_singleton, Node.occurrence, if_pos kind]
  | expr plain =>
    rw [List.flatMap_singleton, Node.occurrence, if_neg fun used => plain (used.imp_right .inl)]
  | closure kind _ _ inner =>
    rw [List.flatMap_cons, inner, Node.occurrence, if_neg (by simp [kind]), List.nil_append]
  | named _ _ inner => exact @inner .read _ rfl
  | loop _ inner => exact inner
  | each _ _ _ source inner => rw [List.flatMap_append, List.flatMap_cons, source, inner]; rfl

namespace FuncDecl

def visits (f : FuncDecl) : List Node := Stmt.visitsAll f.body

def written (f : FuncDecl) : List Node := Stmt.writtenAll f.body

/-- Collecting the uses in the function is a way through these nodes. -/
def CollectedBy (f : FuncDecl) (table : Signatures) (vs : List Node) : Prop :=
  ∃ c, Tour (f.outlook table) (Stmt.actsAll (f.outlook table) f.body) vs f.start c ∧
    f.collect table = c.found

theorem collected_visits (f : FuncDecl) (table : Signatures) : f.CollectedBy table f.visits :=
  ⟨_, f.tour _, f.collect_eq table⟩

theorem collect_loops (f : FuncDecl) (table : Signatures) :
    (f.collect table).loops = f.visits.filterMap Node.site? := by
  have sites := runAll_loops (f.acts (f.outlook table)) [] {}
  rw [collect_eq, (collectWith_ledger f _).2, sites, acts, sites_acts.append, sitesAll_declares,
    (@stmts_course Eq _ _ (Outlook.agree_self _) f.body 0).sites]
  rfl

theorem visits_used (f : FuncDecl) (o : Outlook) :
    Act.occurring (f.acts o) = f.visits.flatMap Node.occurrence := by
  rw [acts, occurring_append, occurring_declares, stmts_occurring, visits,
    (@stmts_course Eq o o o.agree_self f.body 0).occurrences, List.nil_append]

end FuncDecl

end Tenure
