import Tenure.Program.Accept
import Tenure.Proofs.Association
import Tenure.Proofs.Trees

/- Accepted programs. A node enters the arena when it is finished and stays there, so a number stands
   for one node of the program, and the bindings that a function declares are known. -/
namespace Tenure

open Document (Accepting Arena Scope)

mutual
/-- Every node, in whatever slot, is in the arena under its number. -/
def Expr.Filed (a : Arena) : Expr → Prop
  | .absent id => id = 0
  | .node info x y args inits body result =>
    info.id ≠ 0 ∧ a.exprs[info.id - 1]? = some (.node info x y args inits body result) ∧
      x.Filed a ∧ y.Filed a ∧ Expr.AllFiled a args ∧ FieldInit.AllFiled a inits ∧ body.Filed a ∧
      result.Filed a
def Expr.AllFiled (a : Arena) : List Expr → Prop
  | [] => True
  | e :: es => e.Filed a ∧ Expr.AllFiled a es
def FieldInit.AllFiled (a : Arena) : List FieldInit → Prop
  | [] => True
  | .mk _ _ value :: is => value.Filed a ∧ FieldInit.AllFiled a is
def Stmt.Filed (a : Arena) : Stmt → Prop
  | .absent id => id = 0
  | .node info target value body orElse =>
    info.id ≠ 0 ∧ a.stmts[info.id - 1]? = some (.node info target value body orElse) ∧
      target.Filed a ∧ value.Filed a ∧ Stmt.AllFiled a body ∧ orElse.Filed a
def Stmt.AllFiled (a : Arena) : List Stmt → Prop
  | [] => True
  | s :: ss => s.Filed a ∧ Stmt.AllFiled a ss
end

section Each

variable {a : Arena}

theorem Expr.allFiled_iff {es : List Expr} : Expr.AllFiled a es ↔ ∀ e ∈ es, e.Filed a := by
  induction es with
  | nil => simp [Expr.AllFiled]
  | cons e es ih => rw [Expr.AllFiled, ih, List.forall_mem_cons]

theorem FieldInit.allFiled_iff {is : List FieldInit} :
    FieldInit.AllFiled a is ↔ ∀ i ∈ is, i.value.Filed a := by
  induction is with
  | nil => simp [FieldInit.AllFiled]
  | cons i is ih =>
    cases i
    rw [FieldInit.AllFiled, ih, List.forall_mem_cons, FieldInit.value]

theorem Stmt.allFiled_iff {ss : List Stmt} : Stmt.AllFiled a ss ↔ ∀ s ∈ ss, s.Filed a := by
  induction ss with
  | nil => simp [Stmt.AllFiled]
  | cons s ss ih => rw [Stmt.AllFiled, ih, List.forall_mem_cons]

end Each

inductive Ref where
  | expr (id : Nat)
  | stmt (id : Nat)
  deriving DecidableEq

def Ref.id : Ref → Nat
  | .expr id | .stmt id => id

namespace Node

def ref : Node → Ref
  | .expr e => .expr e.id
  | .stmt s => .stmt s.id

def bindings : Node → List Nat
  | .expr (.node info ..) => info.binding :: info.params
  | .stmt (.node info ..) => [info.binding]
  | _ => []

def IsBound : Node → Prop
  | .stmt (.node info ..) => info.kind = .letVar ∨ info.kind = .forLoop → info.binding ≠ 0
  | _ => True

def Filed (a : Arena) : Node → Prop
  | .expr e => e.Filed a
  | .stmt s => s.Filed a

end Node

namespace Document.Arena

def at? (a : Arena) : Ref → Option Node
  | .expr id => if id = 0 then none else (a.exprs[id - 1]?).map .expr
  | .stmt id => if id = 0 then none else (a.stmts[id - 1]?).map .stmt

def next (a : Arena) : Node → Ref
  | .expr _ => .expr (a.exprs.size + 1)
  | .stmt _ => .stmt (a.stmts.size + 1)

def push (a : Arena) : Node → Arena
  | .expr e => { a with exprs := a.exprs.push e }
  | .stmt s => { a with stmts := a.stmts.push s }

theorem push_at_next (a : Arena) (v : Node) : (a.push v).at? (a.next v) = some v := by
  cases v <;> simp [at?, next, push]

end Document.Arena

namespace Node

variable {a : Arena} {v : Node}

theorem filed_absent (none : v.isAbsent = true) : v.Filed a ↔ v.ref.id = 0 := by
  rcases v with (_ | _) | (_ | _)
  · rfl
  · cases none
  · rfl
  · cases none

theorem filed_iff (there : v.isAbsent = false) :
    v.Filed a ↔ a.at? v.ref = some v ∧ ∀ p ∈ v.parts, p.Filed a := by
  rcases v with (_ | _) | (_ | _)
  · cases there
  · simp only [parts, List.forall_mem_cons, List.forall_mem_append, List.forall_mem_map]
    simp [Filed, Expr.Filed, Expr.allFiled_iff, FieldInit.allFiled_iff, Arena.at?, ref, Expr.id, and_assoc]
  · cases there
  · simp only [parts, List.forall_mem_cons, List.forall_mem_append, List.forall_mem_map]
    simp [Filed, Stmt.Filed, Stmt.allFiled_iff, Arena.at?, ref, Stmt.id, and_assoc]

end Node

namespace Document

def Arena.Grows (a b : Arena) : Prop := ∀ r v, a.at? r = some v → b.at? r = some v

theorem Arena.grows_push (a : Arena) (v : Node) : a.Grows (a.push v) := by
  rintro (id | id) w here
  all_goals
    obtain ⟨proper, found⟩ := Option.ite_none_left_eq_some.mp here
    obtain ⟨u, stored, rfl⟩ := Option.map_eq_some_iff.mp found
    have inside := Nat.ne_of_lt (Array.getElem?_eq_some_iff.mp stored).1
    cases v <;> simp [at?, push, proper, stored, inside, Array.getElem?_push]

end Document

theorem Node.Filed.parts {a : Arena} {v : Node} (filed : v.Filed a) : ∀ p ∈ v.parts, p.Filed a := by
  rcases v with (_ | _) | (_ | _)
  · exact List.forall_mem_nil _
  · exact ((filed_iff rfl).mp filed).2
  · exact List.forall_mem_nil _
  · exact ((filed_iff rfl).mp filed).2

theorem Node.Filed.grow {a b : Arena} (grows : a.Grows b) (v : Node) : v.Filed a → v.Filed b := by
  induction v using Node.parts_induction with
  | step v ih =>
    intro filed
    cases there : v.isAbsent with
    | true => exact (filed_absent there).mpr ((filed_absent there).mp filed)
    | false =>
      obtain ⟨here, parts⟩ := (filed_iff there).mp filed
      exact (filed_iff there).mpr ⟨grows _ _ here, fun p part => ih p part (parts p part)⟩

namespace Document

/-- The nodes `vs` have been finished one after the other, each behind its parts, and they name none
but the first `n` bindings. -/
inductive Finishes (n : Nat) : Arena → List Node → Arena → Prop where
  | nil : Finishes n a [] a
  | append : Finishes n a vs b → Finishes n b ws c → Finishes n a (vs ++ ws) c
  | absent (none : v.isAbsent = true) (zero : v.ref.id = 0) : Finishes n a [v] a
  | node (there : v.isAbsent = false) (known : ∀ p ∈ v.bindings, p ≤ n) (bound : v.IsBound)
      (last : v.ref = b.next v) (parts : Finishes n a v.parts b) : Finishes n a [v] (b.push v)

section Steps

variable {α β : Type} {a b : Arena}

theorem bind_ok {x : Accepting α} {f : α → Accepting β} {t : β}
    (h : (x >>= f) a = .ok (t, b)) : ∃ s c, x a = .ok (s, c) ∧ f s c = .ok (t, b) := by
  cases first : x a with
  | error e => simp [bind, StateT.bind, first, Except.bind] at h
  | ok r => exact ⟨r.1, r.2, rfl, by simpa [bind, StateT.bind, first, Except.bind] using h⟩

theorem bind_lift_ok {x : Except Malformed α} {f : α → Accepting β} {t : β}
    (h : (liftM x >>= f) a = .ok (t, b)) : ∃ s, x = .ok s ∧ f s a = .ok (t, b) := by
  cases x with
  | error e => exact absurd h nofun
  | ok s => exact ⟨s, rfl, h⟩

theorem pure_ok {s t : α} (h : (pure s : Accepting α) a = .ok (t, b)) : t = s ∧ b = a := by
  have same : (s, a) = (t, b) := Except.ok.inj h
  exact ⟨congrArg Prod.fst same.symm, congrArg Prod.snd same.symm⟩

end Steps

variable {a b : Arena} {scope : Scope}

theorem acceptBinding_le {id b : Nat} (h : acceptBinding scope id = .ok b) :
    b ≤ scope.numbers.length := by
  unfold acceptBinding at h
  split at h
  · obtain rfl := Except.ok.inj h
    exact Nat.zero_le _
  · split at h
    · rename_i i found
      obtain rfl := Except.ok.inj h
      exact (List.findIdx?_eq_some_iff_findIdx_eq.mp found).1
    · exact absurd h nofun

theorem acceptBindings_le {ids bs : List Nat}
    (h : acceptBindings scope ids = .ok bs) : ∀ b ∈ bs, b ≤ scope.numbers.length := by
  induction ids generalizing bs with
  | nil =>
    obtain rfl := Except.ok.inj h
    simp
  | cons id ids ih =>
    obtain ⟨b, head, h⟩ := ok_of_bind h
    obtain ⟨bs', tail, h⟩ := ok_of_bind h
    obtain rfl := Except.ok.inj h
    exact List.forall_mem_cons.mpr ⟨acceptBinding_le head, ih tail⟩

mutual
theorem acceptExpr_finishes (scope : Scope) : ∀ (e : Document.Expr) {a b : Arena} {t : Tenure.Expr},
    acceptExpr scope e a = .ok (t, b) → Finishes scope.numbers.length a [.expr t] b
  | .absent, a, b, t, h => by
    rw [acceptExpr] at h
    obtain ⟨rfl, rfl⟩ := pure_ok h
    exact .absent rfl rfl
  | .node head x y args inits body result, a, b, t, h => by
    rw [acceptExpr] at h
    cases kind : ExprKind.ofName? head.kind with
    | none =>
      rw [kind] at h
      exact absurd h nofun
    | some kind' =>
      rw [kind] at h
      dsimp only at h
      obtain ⟨ty, -, h⟩ := bind_lift_ok h
      obtain ⟨binding, hbinding, h⟩ := bind_lift_ok h
      obtain ⟨x', ax, hx, h⟩ := bind_ok h
      obtain ⟨y', ay, hy, h⟩ := bind_ok h
      obtain ⟨args', aa, hargs, h⟩ := bind_ok h
      obtain ⟨inits', ai, hinits, h⟩ := bind_ok h
      obtain ⟨params, hparams, h⟩ := bind_lift_ok h
      obtain ⟨body', ab, hbody, h⟩ := bind_ok h
      obtain ⟨result', ar, hresult, h⟩ := bind_ok h
      have parts := (acceptExpr_finishes scope x hx).append <|
        (acceptExpr_finishes scope y hy).append <| (acceptExprs_finish scope args hargs).append <|
        (acceptInits_finish scope inits hinits).append <|
        (acceptStmt_finishes scope body hbody).append (acceptExpr_finishes scope result hresult)
      have known : ∀ p ∈ binding :: params, p ≤ scope.numbers.length :=
        List.forall_mem_cons.mpr ⟨acceptBinding_le hbinding, acceptBindings_le hparams⟩
      cases h
      exact .node rfl known trivial rfl parts
theorem acceptExprs_finish (scope : Scope) : ∀ (es : List Document.Expr) {a b : Arena}
    {ts : List Tenure.Expr}, acceptExprs scope es a = .ok (ts, b) →
      Finishes scope.numbers.length a (ts.map .expr) b
  | [], a, b, ts, h => by
    rw [acceptExprs] at h
    obtain ⟨rfl, rfl⟩ := pure_ok h
    exact .nil
  | e :: es, a, b, ts, h => by
    rw [acceptExprs] at h
    obtain ⟨t, c, head, h⟩ := bind_ok h
    obtain ⟨ts, d, tail, h⟩ := bind_ok h
    obtain ⟨rfl, rfl⟩ := pure_ok h
    exact (acceptExpr_finishes scope e head).append (acceptExprs_finish scope es tail)
theorem acceptInits_finish (scope : Scope) : ∀ (is : List Document.Init) {a b : Arena}
    {ts : List FieldInit}, acceptInits scope is a = .ok (ts, b) →
      Finishes scope.numbers.length a (ts.map (.expr ·.value)) b
  | [], a, b, ts, h => by
    rw [acceptInits] at h
    obtain ⟨rfl, rfl⟩ := pure_ok h
    exact .nil
  | .mk name span value :: is, a, b, ts, h => by
    rw [acceptInits] at h
    obtain ⟨t, c, head, h⟩ := bind_ok h
    obtain ⟨ts, d, tail, h⟩ := bind_ok h
    obtain ⟨rfl, rfl⟩ := pure_ok h
    exact (acceptExpr_finishes scope value head).append (acceptInits_finish scope is tail)
theorem acceptStmt_finishes (scope : Scope) : ∀ (s : Document.Stmt) {a b : Arena} {t : Tenure.Stmt},
    acceptStmt scope s a = .ok (t, b) → Finishes scope.numbers.length a [.stmt t] b
  | .absent, a, b, t, h => by
    rw [acceptStmt] at h
    obtain ⟨rfl, rfl⟩ := pure_ok h
    exact .absent rfl rfl
  | .node head target value body orElse, a, b, t, h => by
    rw [acceptStmt] at h
    cases kind : StmtKind.ofName? head.kind with
    | none =>
      rw [kind] at h
      exact absurd h nofun
    | some kind' =>
      rw [kind] at h
      dsimp only at h
      obtain ⟨binding, hbinding, h⟩ := bind_lift_ok h
      by_cases unbound : (kind' = .letVar ∨ kind' = .forLoop) ∧ binding = 0
      · rw [if_pos unbound] at h
        exact absurd h nofun
      · rw [if_neg unbound] at h
        obtain ⟨target', at', htarget, h⟩ := bind_ok h
        obtain ⟨value', av, hvalue, h⟩ := bind_ok h
        obtain ⟨body', ab, hbody, h⟩ := bind_ok h
        obtain ⟨orElse', ae, helse, h⟩ := bind_ok h
        have parts := (acceptExpr_finishes scope target htarget).append <|
          (acceptExpr_finishes scope value hvalue).append <|
          (acceptStmts_finish scope body hbody).append (acceptStmt_finishes scope orElse helse)
        cases h
        exact .node rfl (List.forall_mem_singleton.mpr (acceptBinding_le hbinding))
          (fun kind zero => unbound ⟨kind, zero⟩) rfl parts
theorem acceptStmts_finish (scope : Scope) : ∀ (ss : List Document.Stmt) {a b : Arena}
    {ts : List Tenure.Stmt}, acceptStmts scope ss a = .ok (ts, b) →
      Finishes scope.numbers.length a (ts.map .stmt) b
  | [], a, b, ts, h => by
    rw [acceptStmts] at h
    obtain ⟨rfl, rfl⟩ := pure_ok h
    exact .nil
  | s :: ss, a, b, ts, h => by
    rw [acceptStmts] at h
    obtain ⟨t, c, head, h⟩ := bind_ok h
    obtain ⟨ts, d, tail, h⟩ := bind_ok h
    obtain ⟨rfl, rfl⟩ := pure_ok h
    exact (acceptStmt_finishes scope s head).append (acceptStmts_finish scope ss tail)
end

theorem Finishes.filed {n : Nat} {vs : List Node} (h : Finishes n a vs b) :
    a.Grows b ∧ ∀ v ∈ vs, v.Filed b := by
  induction h with
  | nil => exact ⟨fun _ _ => id, List.forall_mem_nil _⟩
  | append _ _ first second =>
    refine ⟨fun r v here => second.1 r v (first.1 r v here), List.forall_mem_append.mpr ⟨?_, second.2⟩⟩
    exact fun v member => (first.2 v member).grow second.1
  | absent none zero => exact ⟨fun _ _ => id, List.forall_mem_singleton.mpr ((Node.filed_absent none).mpr zero)⟩
  | @node a b v there _ _ last _ parts =>
    have more := b.grows_push v
    refine ⟨fun r v here => more r v (parts.1 r v here), List.forall_mem_singleton.mpr ?_⟩
    rw [Node.filed_iff there, last]
    exact ⟨b.push_at_next v, fun p part => (parts.2 p part).grow more⟩

theorem declareBindings_size {done : Scope} {bs : List Binding}
    (h : declareBindings scope bs = .ok done) (size : scope.numbers.length = scope.bindings.size) :
    done.numbers.length = done.bindings.size := by
  induction bs generalizing scope with
  | nil =>
    obtain rfl := Except.ok.inj h
    exact size
  | cons b bs ih =>
    obtain ⟨next, one, h⟩ := ok_of_bind h
    refine ih h ?_
    unfold declareBinding at one
    by_cases zero : b.id = 0
    · rw [if_pos zero] at one
      exact absurd one nofun
    · by_cases twice : scope.numbers.contains b.id = true
      · rw [if_neg zero, if_pos twice] at one
        exact absurd one nofun
      · rw [if_neg zero, if_neg twice] at one
        obtain ⟨ty, -, one⟩ := ok_of_bind one
        obtain rfl := Except.ok.inj one
        simp [size]

theorem acceptFuncs_finish {id : Nat} {fs : List Func} {ts : List FuncDecl}
    (h : acceptFuncs scope id fs a = .ok (ts, b)) :
    Finishes scope.numbers.length a (ts.flatMap fun t => t.body.map .stmt) b ∧
      ts.map (·.id) = List.range' id ts.length ∧
      ∀ t ∈ ts, ∀ p ∈ t.receiver :: t.params, p ≤ scope.numbers.length := by
  induction fs generalizing id a b ts with
  | nil =>
    rw [acceptFuncs] at h
    obtain ⟨rfl, rfl⟩ := pure_ok h
    exact ⟨.nil, rfl, List.forall_mem_nil _⟩
  | cons f fs ih =>
    rw [acceptFuncs] at h
    obtain ⟨t, c, head, h⟩ := bind_ok h
    obtain ⟨ts, d, tail, h⟩ := bind_ok h
    obtain ⟨rfl, rfl⟩ := pure_ok h
    obtain ⟨rest, ids, known⟩ := ih tail
    unfold acceptFunc at head
    obtain ⟨result, -, head⟩ := bind_lift_ok head
    obtain ⟨receiver, hreceiver, head⟩ := bind_lift_ok head
    obtain ⟨params, hparams, head⟩ := bind_lift_ok head
    obtain ⟨body, c, hbody, head⟩ := bind_ok head
    obtain ⟨rfl, rfl⟩ := pure_ok head
    refine ⟨.append (acceptStmts_finish scope f.body hbody) rest, ?_,
      List.forall_mem_cons.mpr ⟨?_, known⟩⟩
    · rw [List.map_cons, ids, List.length_cons, List.range'_succ]
    · exact List.forall_mem_cons.mpr ⟨acceptBinding_le hreceiver, acceptBindings_le hparams⟩

theorem acceptIn_ok {file : Nat} {d : Document} {m : Module} (h : acceptIn file d = .ok m) :
    ∃ structs scope funcs arena,
      declareBindings { file, structs := d.structs } d.bindings = .ok scope ∧
      acceptFuncs scope 0 d.funcs {} = .ok (funcs, arena) ∧
      m = { name := if d.module.isEmpty then "main" else d.module, path := d.file, file, structs
            funcs, exprs := arena.exprs, stmts := arena.stmts, bindings := scope.bindings } := by
  obtain ⟨structs, -, h⟩ := ok_of_bind h
  obtain ⟨scope, declared, h⟩ := ok_of_bind h
  obtain ⟨⟨funcs, arena⟩, accepted, h⟩ := ok_of_bind h
  exact ⟨structs, scope, funcs, arena, declared, accepted, (Except.ok.inj h).symm⟩

end Document

structure Module.Filed (m : Module) : Prop where
  ids : (m.funcs.map (·.id)).Nodup
  bodies : ∀ f ∈ m.funcs, Stmt.AllFiled ⟨m.exprs, m.stmts⟩ f.body
  receivers : ∀ f ∈ m.funcs, f.receiver ≠ 0 → (m.binding? f.receiver).isSome
  params : ∀ f ∈ m.funcs, ∀ b ∈ f.params, b ≠ 0 → (m.binding? b).isSome

theorem Module.binding_isSome {m : Module} {b : Nat} (known : b ≤ m.bindings.size) (proper : b ≠ 0) :
    (m.binding? b).isSome := by
  have inside : b - 1 < m.bindings.size := by omega
  simpa [Module.binding?, proper] using inside

namespace Document

theorem acceptIn_finish {file : Nat} {d : Document} {m : Module} (h : acceptIn file d = .ok m) :
    Finishes m.bindings.size {} (m.funcs.flatMap fun f => f.body.map .stmt) ⟨m.exprs, m.stmts⟩ ∧
      (m.funcs.map (·.id)).Nodup ∧
      ∀ f ∈ m.funcs, ∀ p ∈ f.receiver :: f.params, p ≤ m.bindings.size := by
  obtain ⟨structs, scope, funcs, arena, declared, accepted, rfl⟩ := acceptIn_ok h
  obtain ⟨finished, ids, known⟩ := acceptFuncs_finish accepted
  rw [declareBindings_size declared rfl] at finished known
  refine ⟨finished, ?_, known⟩
  rw [ids]
  exact List.nodup_range'

theorem acceptIn_filed {file : Nat} {d : Document} {m : Module} (h : acceptIn file d = .ok m) :
    m.Filed := by
  obtain ⟨finished, ids, known⟩ := acceptIn_finish h
  obtain ⟨-, filed⟩ := finished.filed
  simp only [List.forall_mem_cons] at known
  refine ⟨ids, ?_, fun f member => m.binding_isSome (known f member).1,
    fun f member b param => m.binding_isSome ((known f member).2 b param)⟩
  intro f member
  exact Stmt.allFiled_iff.mpr fun s inside =>
    filed (.stmt s) (List.mem_flatMap.mpr ⟨f, member, List.mem_map_of_mem inside⟩)

theorem accept_in {fs : FileSet} {disk : String → Option Bytes} {d : Document} {m : Module}
    (accepted : (d.accept fs disk).2 = .ok m) : ∃ file, acceptIn file d = .ok m := by
  unfold accept at accepted
  split at accepted
  · exact absurd accepted nofun
  · exact ⟨_, accepted⟩

theorem accept_filed {fs : FileSet} {disk : String → Option Bytes} {d : Document} {m : Module}
    (accepted : (d.accept fs disk).2 = .ok m) : m.Filed := by
  obtain ⟨file, inside⟩ := accept_in accepted
  exact acceptIn_filed inside

end Document

end Tenure
