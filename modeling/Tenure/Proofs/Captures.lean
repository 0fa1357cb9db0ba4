import Tenure.Proofs.Taking
import Tenure.Proofs.Traversals

/- What is noted down about a closure: whether it escapes, and which bindings it captures. It captures
   what it uses without declaring it, and this does not depend on which closures escape. -/
namespace Tenure

structure Naming where
  name : Nat
  closure : Expr

def Node.closure? : Node → Option Nat
  | .expr (.node info ..) => if info.kind = .closure then some info.id else none
  | _ => none

def Node.naming? : Node → Option Naming
  | .stmt (.node info _ value ..) =>
    if info.kind = .letVar ∧ value.isKind .closure then some ⟨info.binding, value⟩ else none
  | _ => none

def closuresOf (vs : List Node) : List Nat := vs.filterMap Node.closure?

def namingsOf (vs : List Node) : List Naming := vs.filterMap Node.naming?

theorem closuresOf_closure {info : ExprInfo} {x y result : Expr} {args : List Expr}
    {inits : List FieldInit} {body : Stmt} {vs : List Node} (kind : info.kind = .closure) :
    closuresOf (.expr (.node info x y args inits body result) :: vs) = info.id :: closuresOf vs :=
  List.filterMap_cons_some (if_pos kind)

structure Sight where
  isLocal : Bool
  isCaptured : Bool

namespace Sight

def reach (v : Sight) : Sight := { v with isCaptured := v.isCaptured || !v.isLocal }

def leave (v inner : Sight) : Sight := if inner.isCaptured then v.reach else v

end Sight

namespace Thread

def sight (t : Thread) : Sight := ⟨t.isLocal, t.capture.isSome⟩

section Steps

variable (t : Thread) (depth b : Nat)

theorem note_sight (e : Event) (access : Access) : (t.note e access).sight = t.sight.reach := by
  unfold note
  split
  · rename_i here
    simp [sight, Sight.reach, here]
  · rename_i away
    simp [sight, Sight.reach, away]

theorem declareIn_sight (bs : List Nat) :
    (t.declareIn depth b bs).sight =
      if b ∈ bs then { t.sight with isLocal := true } else t.sight := by
  unfold declareIn
  split <;> rfl

theorem leave_sight (inner : Thread) (expr : Nat) (escapes : Bool) (spot : Spot) :
    (t.leave inner depth expr escapes spot).sight = t.sight.leave inner.sight := by
  unfold leave Sight.leave
  cases captured : inner.capture with
  | none => simp [sight, captured]
  | some cap =>
    simp only [note_sight]
    simp [sight, captured]

theorem enter_sight (params : List Nat) :
    (t.enter depth b params).sight = (({} : Thread).enter 0 b params).sight := by
  rw [enter, enter, declareIn_sight, declareIn_sight]
  rfl

end Steps

end Thread

theorem followAll_sight {b : Nat} {as : List Act} (loops loops' : List Nat) {t t' : Thread}
    (same : t.sight = t'.sight) :
    (Act.followAll b loops as t).sight = (Act.followAll b loops' as t').sight := by
  induction as using acts_induction generalizing loops loops' t t' <;>
    simp only [Act.followAll, Act.follow] at *
  case nil => exact same
  case cons a as first rest => exact rest loops loops' (first loops loops' same)
  case declare c => rw [Thread.declareIn_sight, Thread.declareIn_sight, same]
  case use u =>
    split
    · rw [Thread.note_sight, Thread.note_sight, same]
    · exact same
  case loop stmt acts inner => exact inner _ _ same
  case each site acts inner =>
    refine inner _ _ ?_
    rw [Thread.declareIn_sight, Thread.declareIn_sight, same]
  case closure expr escapes params spot acts inner =>
    rw [Thread.leave_sight, Thread.leave_sight, same]
    exact congrArg _ (inner _ _ ((Thread.enter_sight ..).trans (Thread.enter_sight ..).symm))

def Act.takes (b : Nat) (params : List Nat) (acts : List Act) : Bool :=
  (Act.followAll b [] acts (({} : Thread).enter 0 b params)).capture.isSome

theorem takes_eq (b : Nat) (params : List Nat) (acts : List Act) (loops : List Nat) (t : Thread) :
    (Act.followAll b loops acts (t.enter loops.length b params)).capture.isSome =
      Act.takes b params acts :=
  congrArg Sight.isCaptured (followAll_sight loops [] (Thread.enter_sight ..))

def Node.takes (o : Outlook) (b : Nat) : Node → Bool
  | .stmt (.node info _ (.node i _ _ _ _ body result) ..) =>
    Act.takes b (bindingsOf i.params) (result.acts o .move { stmt := info.span } ++ body.acts o)
  | _ => false

namespace Collection

def entry (c : Collection) (k : Nat) : Option Bool × Option (List Nat) :=
  (c.escaping.lookup k, c.captures.lookup k)

def Notes (c : Collection) (k : Nat) (escapes : Bool) (takes : Nat → Bool) : Prop :=
  ∃ bs, c.entry k = (some escapes, some bs) ∧ ∀ b, b ∈ bs ↔ takes b = true

end Collection

namespace Collector

/-- From `c` to `d` the nodes were visited: every closure that a `let` names is noted down, and nothing
is noted down about closures elsewhere. -/
structure Surveys (o : Outlook) (vs : List Node) (c d : Collector) : Prop where
  others : ∀ k ∉ closuresOf vs, d.found.entry k = c.found.entry k
  within : ∀ v ∈ vs, ∀ n ∈ v.naming?, n.closure.id ∈ closuresOf vs
  named : (closuresOf vs).Nodup → ∀ v ∈ vs, ∀ n ∈ v.naming?,
    d.found.Notes n.closure.id (o.escapingLets.contains n.name) fun b => v.takes o b

section Surveys

variable {o : Outlook} {vs ws : List Node} {c d e : Collector}

theorem Surveys.trans (first : Surveys o vs c d) (second : Surveys o ws d e) :
    Surveys o (vs ++ ws) c e := by
  have closures : closuresOf (vs ++ ws) = closuresOf vs ++ closuresOf ws := List.filterMap_append
  refine ⟨?_, ?_, ?_⟩ <;> rw [closures]
  · intro k out
    rw [List.mem_append, not_or] at out
    rw [second.others k out.2, first.others k out.1]
  · refine List.forall_mem_append.mpr ⟨?_, ?_⟩
    · exact fun v member n named => List.mem_append_left _ (first.within v member n named)
    · exact fun v member n named => List.mem_append_right _ (second.within v member n named)
  · intro once
    obtain ⟨left, right, apart⟩ := List.nodup_append.mp once
    refine List.forall_mem_append.mpr ⟨?_, second.named right⟩
    intro v member n named
    obtain ⟨bs, noted, captured⟩ := first.named left v member n named
    have out : n.closure.id ∉ closuresOf ws :=
      fun again => apart _ (first.within v member n named) _ again rfl
    exact ⟨bs, (second.others _ out).trans noted, captured⟩

theorem Surveys.silent (kept : ∀ k, d.found.entry k = c.found.entry k) : Surveys o [] c d :=
  ⟨fun k _ => kept k, List.forall_mem_nil _, fun _ => List.forall_mem_nil _⟩

theorem Surveys.after (h : Surveys o vs d e) (kept : ∀ k, d.found.entry k = c.found.entry k) :
    Surveys o vs c e :=
  ⟨fun k out => (h.others k out).trans (kept k), h.within, h.named⟩

theorem Surveys.naming {v : Node} (h : Surveys o vs c d) (closure : v.closure? = none)
    (within : ∀ n ∈ v.naming?, n.closure.id ∈ closuresOf vs)
    (named : (closuresOf vs).Nodup → ∀ n ∈ v.naming?,
      d.found.Notes n.closure.id (o.escapingLets.contains n.name) fun b => v.takes o b) :
    Surveys o (v :: vs) c d := by
  have closures : closuresOf (v :: vs) = closuresOf vs := List.filterMap_cons_none closure
  refine ⟨?_, ?_, ?_⟩ <;> rw [closures]
  · exact h.others
  · exact List.forall_mem_cons.mpr ⟨within, h.within⟩
  · exact fun once => List.forall_mem_cons.mpr ⟨named once, h.named once⟩

theorem Surveys.behind {v : Node} (h : Surveys o vs c d) (closure : v.closure? = none)
    (naming : v.naming? = none) : Surveys o (v :: vs) c d := by
  have none : ∀ n, n ∉ v.naming? := by simp [naming]
  exact h.naming closure (fun n named => absurd named (none n)) fun _ n named => absurd named (none n)

end Surveys

section Entries

variable (c : Collector) (k : Nat)

theorem use_entry (b : Nat) (access : Access) (expr : Nat) (span : Range) (reinit : Bool) :
    (c.use b access expr span reinit).found.entry k = c.found.entry k := by
  unfold use
  split
  · rfl
  split
  · rfl
  split <;> rfl

theorem declare_entry (b : Nat) : (c.declare b).found.entry k = c.found.entry k := by
  unfold declare
  split <;> rfl

theorem declareAll_entry (bs : List Nat) : (c.declareAll bs).found.entry k = c.found.entry k :=
  List.foldlRecOn (motive := fun d : Collector => d.found.entry k = c.found.entry k) _ _ rfl
    fun d kept b _ => (declare_entry d k b).trans kept

theorem project_entry (info : ExprInfo) (root : Nat) (access : Access) :
    (c.project info root access).found.entry k = c.found.entry k := by
  unfold project
  extract_lets typed
  split <;> rfl

theorem openClosure_entry (expr : Nat) (escapes : Bool) (params : List Nat) :
    (c.openClosure expr escapes params).found.entry k =
      (if k = expr then some escapes else c.found.escaping.lookup k, c.found.captures.lookup k) := by
  refine (declareAll_entry _ k params).trans ?_
  rw [Collection.entry, lookup_setKey]

theorem passOn_entry (expr : Nat) (escapes : Bool) (cap : Capture) :
    (c.passOn expr escapes cap).found.entry k = c.found.entry k := by
  unfold passOn
  split
  · rfl
  split <;> rfl

theorem closeClosure_entry (outer : Collector) (expr : Nat) (escapes : Bool) :
    (c.closeClosure outer expr escapes).found.entry k =
      (c.found.escaping.lookup k,
        if k = expr then some (((c.frames.head?.map (·.captures)).getD []).map (·.binding))
        else c.found.captures.lookup k) := by
  unfold closeClosure
  refine Eq.trans (List.foldlRecOn (motive := fun d : Collector => d.found.entry k = _) _ _ rfl
    fun d kept cap _ => (passOn_entry d k expr escapes cap).trans kept) ?_
  rw [Collection.entry, lookup_setKey]
  cases c.frames <;> rfl

end Entries

section Closure

variable {o : Outlook} {as : List Act} {vs : List Node} {c d : Collector} {escapes : Bool}

variable {info : ExprInfo} {x y result : Expr} {args : List Expr} {inits : List FieldInit} {body : Stmt}

theorem closure_surveys (kind : info.kind = .closure)
    (inner : Surveys o vs (c.openClosure info.id escapes info.params) d) :
    Surveys o (.expr (.node info x y args inits body result) :: vs) c
      (d.closeClosure c info.id escapes) := by
  have kept : ∀ k, k ≠ info.id → (d.closeClosure c info.id escapes).found.entry k =
      d.found.entry k := by
    intro k other
    rw [closeClosure_entry, if_neg other]
    rfl
  have unnamed : ∀ n, n ∉ (Node.expr (.node info x y args inits body result)).naming? := by
    simp [Node.naming?]
  refine ⟨?_, ?_, ?_⟩ <;> rw [closuresOf_closure kind]
  · intro k out
    rw [List.mem_cons, not_or] at out
    rw [kept k out.1, inner.others k out.2, openClosure_entry, if_neg out.1]
    rfl
  · refine List.forall_mem_cons.mpr ⟨fun n named => absurd named (unnamed n), ?_⟩
    exact fun v member n named => List.mem_cons_of_mem _ (inner.within v member n named)
  · intro once
    rw [List.nodup_cons] at once
    refine List.forall_mem_cons.mpr ⟨fun n named => absurd named (unnamed n), ?_⟩
    intro v member n named
    obtain ⟨bs, noted, captured⟩ := inner.named once.2 v member n named
    have other : n.closure.id ≠ info.id := fun same => once.1 (same ▸ inner.within v member n named)
    exact ⟨bs, (kept _ other).trans noted, captured⟩

theorem openClosure_tidy (tidy : c.ledger.Tidy) (expr : Nat) (escapes : Bool) (params : List Nat) :
    (c.openClosure expr escapes params).ledger.Tidy := by
  rw [ledger_openClosure]
  exact tidy.enter _ _

theorem closure_captures (tidy : c.ledger.Tidy)
    (tour : Tour o as vs (c.openClosure info.id escapes info.params) d) (b : Nat) :
    b ∈ ((d.frames.head?.map (·.captures)).getD []).map (·.binding) ↔
      Act.takes b (bindingsOf info.params) as = true := by
  let loops := List.replicate c.loopDepth 0
  have depth : c.loopDepth = loops.length := List.length_replicate.symm
  have run := (tour.follows ((openClosure_depth ..).trans depth)).ledger
  rw [ledger_openClosure, depth] at run
  have thread := runAll_thread b as loops _ (tidy.enter loops.length (bindingsOf info.params))
  rw [← run, Ledger.thread_enter] at thread
  rw [← takes_eq b _ as loops (c.ledger.thread b), ← thread]
  cases frames : d.frames with
  | nil => simp [Ledger.thread, Ledger.capture?, ledger, frames]
  | cons f fs => simp [Ledger.thread, Ledger.capture?, ledger, frames]

theorem named_surveys {letInfo : StmtInfo} {target : Expr} {inside : List Stmt} {orElse : Stmt}
    (kind : letInfo.kind = .letVar) (closure : info.kind = .closure)
    (known : escapes = o.escapingLets.contains letInfo.binding) (here : c.spot = { stmt := letInfo.span })
    (tidy : c.ledger.Tidy) (inner : Surveys o vs (c.openClosure info.id escapes info.params) d)
    (tour : Tour o (result.acts o .move c.spot.inClosure ++ body.acts o) vs
      (c.openClosure info.id escapes info.params) d) :
    Surveys o (.stmt (.node letInfo target (.node info x y args inits body result) inside orElse) ::
      .expr (.node info x y args inits body result) :: vs) c (d.closeClosure c info.id escapes) := by
  have naming : (Node.stmt (.node letInfo target (.node info x y args inits body result) inside
      orElse)).naming? = some ⟨letInfo.binding, .node info x y args inits body result⟩ :=
    if_pos ⟨kind, by simpa [Expr.isKind, Expr.info?] using closure⟩
  refine (closure_surveys closure inner).naming rfl ?_ ?_ <;>
    rw [closuresOf_closure closure, naming]
  · rintro n ⟨⟩
    exact List.mem_cons_self
  · rintro once n ⟨⟩
    have noted := inner.others info.id (List.nodup_cons.mp once).1
    rw [openClosure_entry, if_pos rfl] at noted
    rw [here] at tour
    refine ⟨_, ?_, closure_captures tidy tour⟩
    rw [Expr.id, closeClosure_entry, if_pos rfl, ← known]
    exact congrArg (·.1, some _) noted

end Closure

end Collector

theorem Tour.tidy {o : Outlook} {as : List Act} {vs : List Node} {c d : Collector}
    (h : Tour o as vs c d) (tidy : c.ledger.Tidy) : d.ledger.Tidy := by
  rw [(h.follows (List.length_replicate (n := c.loopDepth) (a := 0)).symm).ledger]
  exact (runAll_keeps as _ _).tidy tidy

theorem Tour.surveys {o : Outlook} {as : List Act} {vs : List Node} {c d : Collector}
    (h : Tour o as vs c d) (tidy : c.ledger.Tidy) : Collector.Surveys o vs c d := by
  induction h with
  | refl => exact .silent fun _ => rfl
  | trans before _ first second => exact (first tidy).trans (second (before.tidy tidy))
  | inExpr kind _ inner => exact (inner tidy).behind (if_neg kind) rfl
  | inStmt kind _ inner => exact (inner tidy).behind rfl (if_neg kind)
  | use kind =>
    exact (Collector.Surveys.silent fun k => Collector.use_entry _ k ..).behind (if_neg kind) rfl
  | part kind before _ first rest =>
    have next := rest (by
      rw [(@Collector.project_follows [] _ _ _ _).ledger]
      exact before.tidy tidy)
    exact ((first tidy).trans (next.after (Collector.project_entry _ · ..))).behind (if_neg kind) rfl
  | declare => exact .silent fun k => Collector.declare_entry _ k _
  | closure kind _ inner =>
    exact Collector.closure_surveys kind (inner (Collector.openClosure_tidy tidy _ _ _))
  | named kind closure known here tour inner =>
    exact Collector.named_surveys kind closure known here tidy
      (inner (Collector.openClosure_tidy tidy _ _ _)) tour
  | loop _ inner | elsewhere _ _ inner =>
    obtain ⟨others, within, named⟩ := inner tidy
    exact ⟨others, within, named⟩
  | each site _ inner =>
    obtain ⟨others, within, named⟩ := (inner (by
      rw [Collector.ledger_declare]
      exact (Ledger.declareAll_keeps ..).tidy tidy)).after (Collector.declare_entry _ · _)
    exact ⟨others, within, named⟩

namespace FuncDecl

def closures (f : FuncDecl) : List Nat := closuresOf f.visits

def namings (f : FuncDecl) : List Naming := namingsOf f.visits

theorem collectWith_notes {f : FuncDecl} (distinct : f.closures.Nodup) (o : Outlook) :
    ∀ v ∈ f.visits, ∀ n ∈ v.naming?, (f.collectWith o).Notes n.closure.id
      (o.escapingLets.contains n.name) fun b => v.takes o b := by
  have tidy : f.start.ledger.Tidy := by
    rw [FuncDecl.start, Collector.ledger_declareAll]
    exact (Ledger.declareAll_keeps ..).tidy (List.forall_mem_nil _)
  exact ((f.tour o).surveys tidy).named distinct

end FuncDecl

end Tenure
