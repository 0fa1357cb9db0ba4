import Tenure.Proofs.Completion

/- Accepted programs are forests. The number of every node stands in one slot, and parts have smaller
   numbers than what they are parts of. So a way from slot to slot ends, and a walk that takes each part
   of a node at most once meets each node at most once. The text of a program has a mark for each time
   that a node is written, so the marks tell of a walk as well. -/
namespace Tenure

open Document (Arena Finishes)

def Ref.Precedes : Ref → Ref → Prop
  | .expr c, .expr id | .stmt c, .stmt id => c < id
  | _, _ => True

def Node.slots (v : Node) : List Ref := v.parts.map Node.ref

structure Node.Sound (n : Nat) (a : Arena) (v : Node) : Prop where
  filed : v.Filed a
  after : ∀ c ∈ v.slots, c.Precedes v.ref
  known : ∀ b ∈ v.bindings, b ≤ n
  bound : v.IsBound

namespace Document.Arena

def nodes (a : Arena) : List Node := a.exprs.toList.map .expr ++ a.stmts.toList.map .stmt

def refs (a : Arena) : List Ref := a.nodes.map Node.ref

def slots (a : Arena) : List Ref := a.nodes.flatMap Node.slots

def Slot (a : Arena) (c r : Ref) : Prop := ∃ v, a.at? r = some v ∧ c ∈ v.slots

structure Sound (n : Nat) (a : Arena) : Prop where
  exprs : a.exprs.toList.map Expr.id = List.range' 1 a.exprs.size
  stmts : a.stmts.toList.map Stmt.id = List.range' 1 a.stmts.size
  nodes : ∀ v ∈ a.nodes, v.Sound n a

variable {a : Arena} {r : Ref} {v : Node}

theorem nodes_push (a : Arena) (v : Node) : (a.push v).nodes.Perm (v :: a.nodes) := by
  cases v with
  | expr e =>
    simp only [nodes, push, Array.toList_push, List.map_append, List.append_assoc]
    exact List.perm_middle
  | stmt s =>
    simp only [nodes, push, Array.toList_push, List.map_append, ← List.append_assoc]
    exact List.perm_append_singleton _ _

theorem mem_of_at (found : a.at? r = some v) : v ∈ a.nodes := by
  cases r with
  | expr | stmt =>
    obtain ⟨u, stored, rfl⟩ := Option.map_eq_some_iff.mp (Option.ite_none_left_eq_some.mp found).2
    simpa [nodes] using Array.mem_of_getElem? stored

theorem at_precedes (found : a.at? r = some v) (w : Node) : r.Precedes (a.next w) := by
  cases r with
  | expr | stmt =>
    obtain ⟨proper, found⟩ := Option.ite_none_left_eq_some.mp found
    obtain ⟨u, stored, rfl⟩ := Option.map_eq_some_iff.mp found
    have inside := (Array.getElem?_eq_some_iff.mp stored).1
    cases w <;> simp [next, Ref.Precedes]
    omega

theorem filed_precedes (filed : v.Filed a) (w : Node) : v.ref.Precedes (a.next w) := by
  cases there : v.isAbsent with
  | true =>
    have zero := (Node.filed_absent there).mp filed
    cases v <;> cases w <;> simp_all [next, Ref.Precedes, Node.ref, Ref.id]
  | false => exact at_precedes ((Node.filed_iff there).mp filed).1 w

theorem Sound.refs_eq {n : Nat} (sound : a.Sound n) : a.refs =
    (List.range' 1 a.exprs.size).map .expr ++ (List.range' 1 a.stmts.size).map .stmt := by
  rw [← sound.exprs, ← sound.stmts, refs, Arena.nodes, List.map_append, List.map_map, List.map_map,
    List.map_map, List.map_map]
  rfl

theorem Sound.distinct {n : Nat} (sound : a.Sound n) : a.refs.Nodup := by
  rw [sound.refs_eq]
  refine List.Nodup.append (List.Nodup.map (fun _ _ => Ref.expr.inj) List.nodup_range')
    (List.Nodup.map (fun _ _ => Ref.stmt.inj) List.nodup_range') ?_
  rintro r first second
  obtain ⟨i, -, rfl⟩ := List.mem_map.mp first
  obtain ⟨j, -, same⟩ := List.mem_map.mp second
  cases same

end Document.Arena

section Finished

variable {n : Nat} {a b : Arena} {vs : List Node}

theorem slots_count (h : Finishes n a vs b) {r : Ref} (proper : r.id ≠ 0) :
    b.slots.count r + (vs.map Node.ref).count r + a.refs.count r = a.slots.count r + b.refs.count r := by
  induction h with
  | nil => simp
  | append _ _ first second =>
    rw [List.map_append, List.count_append]
    omega
  | absent _ zero =>
    have other : [Node.ref _].count r = 0 :=
      List.count_eq_zero.mpr fun here => proper (List.mem_singleton.mp here ▸ zero)
    rw [List.map_singleton, other, Nat.add_zero]
  | @node a b v _ _ _ _ _ parts =>
    have held := ((b.nodes_push v).flatMap_right Node.slots).count_eq r
    have numbers := ((b.nodes_push v).map Node.ref).count_eq r
    simp only [List.flatMap_cons, List.count_append, List.map_cons, List.count_cons] at held numbers
    simp only [Arena.slots, Arena.refs, Node.slots, List.map_cons, List.map_nil, List.count_cons,
      List.count_nil] at *
    omega

theorem finished_sound (h : Finishes n a vs b) (sound : a.Sound n) : b.Sound n := by
  induction h with
  | nil | absent => exact sound
  | append _ _ first second => exact second (first sound)
  | @node a b v there known bound last parts ih =>
    have sound := ih sound
    obtain ⟨-, filed⟩ := (Finishes.node there known bound last parts).filed
    have own : v.Sound n (b.push v) := by
      refine ⟨filed v List.mem_cons_self, List.forall_mem_map.mpr fun p part => ?_, known, bound⟩
      rw [last]
      exact Arena.filed_precedes (parts.filed.2 p part) v
    have others : ∀ w ∈ b.nodes, w.Sound n (b.push v) := fun w member =>
      { sound.nodes w member with filed := (sound.nodes w member).filed.grow (b.grows_push v) }
    have all : ∀ w ∈ (b.push v).nodes, w.Sound n (b.push v) := fun w member =>
      List.forall_mem_cons.mpr ⟨own, others⟩ w ((b.nodes_push v).subset member)
    cases v with
    | expr e =>
      refine ⟨?_, sound.stmts, all⟩
      have number : e.id = b.exprs.size + 1 := Ref.expr.inj last
      simp [Arena.push, sound.exprs, number, List.range'_concat, Nat.add_comm]
    | stmt s =>
      refine ⟨sound.exprs, ?_, all⟩
      have number : s.id = b.stmts.size + 1 := Ref.stmt.inj last
      simp [Arena.push, sound.stmts, number, List.range'_concat, Nat.add_comm]

theorem finished_walked {E : Expr → List Node} {S : Stmt → List Node} (walks : Walks E S)
    (h : Finishes n a vs b) (p : Node → Bool) :
    a.nodes.countP p + (vs.flatMap (Node.elim E S)).countP p ≤ b.nodes.countP p := by
  induction h with
  | nil => simp
  | append _ _ first second =>
    rw [List.flatMap_append, List.countP_append]
    omega
  | @absent a v none =>
    have met := (walks v).countP_le p
    rw [List.flatMap_singleton]
    rcases v with (_ | _) | (_ | _)
    · exact Nat.add_le_add_left met _
    · cases none
    · exact Nat.add_le_add_left met _
    · cases none
  | @node a b v _ _ _ _ _ parts =>
    have met := (walks v).countP_le p
    have once : v.self.countP p ≤ [v].countP p := by rcases v with (_ | _) | (_ | _) <;> simp [Node.self]
    rw [Node.within, List.countP_append] at met
    rw [(b.nodes_push v).countP_eq, List.flatMap_singleton, List.countP_cons]
    rw [List.countP_singleton] at once
    omega

end Finished

/-- The projections that lead from an expression to its root, and what they end at. -/
def Expr.spine : Expr → List Expr
  | .absent _ => []
  | .node info x y args inits body result =>
    .node info x y args inits body result :: match info.kind with
      | .field | .index => x.spine
      | _ => []

theorem Expr.root_spine (e : Expr) : e.root = (e.spine.getLast?.map Expr.root).getD 0 := by
  cases e with
  | absent => rfl
  | node info x y args inits body result =>
    have ih := x.root_spine
    cases kind : info.kind with
    | field | index =>
      simp only [Expr.root, Expr.spine, kind, List.getLast?_cons, Option.map_some, Option.getD_some]
      cases last : x.spine.getLast? with
      | none => simp [Expr.root, kind]
      | some d => simpa [last] using ih
    | _ => simp [Expr.spine, kind]

section Sound

variable {n : Nat} {a : Arena}

theorem filed_acc (a : Arena) (v : Node) : v.Filed a → Acc a.Slot v.ref := by
  induction v using Node.parts_induction with
  | step v ih =>
    intro filed
    refine .intro _ ?_
    rintro c ⟨w, found, slot⟩
    cases there : v.isAbsent with
    | true =>
      have zero := (Node.filed_absent there).mp filed
      cases v <;> simp_all [Arena.at?, Node.ref, Ref.id]
    | false =>
      obtain ⟨here, parts⟩ := (Node.filed_iff there).mp filed
      obtain rfl : v = w := Option.some.inj (here.symm.trans found)
      obtain ⟨p, part, rfl⟩ := List.mem_map.mp slot
      exact ih p part (parts p part)

theorem slots_end (sound : a.Sound n) : WellFounded a.Slot := by
  refine ⟨fun r => .intro r ?_⟩
  rintro c ⟨v, found, slot⟩
  obtain ⟨p, part, rfl⟩ := List.mem_map.mp slot
  exact filed_acc a p ((sound.nodes v (Arena.mem_of_at found)).filed.parts p part)

theorem spine_decreases (sound : a.Sound n) : ∀ e : Expr, (Node.expr e).Filed a →
    (e.spine.map Expr.id).Pairwise (· > ·) ∧ ∀ d ∈ e.spine, d.id ≤ e.id
  | .absent _, _ => ⟨.nil, List.forall_mem_nil _⟩
  | .node info x y args inits body result, filed => by
    have stored := Arena.mem_of_at ((Node.filed_iff rfl).mp filed).1
    have before : x.id < info.id :=
      (sound.nodes _ stored).after (.expr x.id) (List.mem_map_of_mem List.mem_cons_self)
    obtain ⟨falling, below⟩ := spine_decreases sound x filed.2.2.1
    have under : ∀ d ∈ x.spine, d.id < info.id :=
      fun d member => Nat.lt_of_le_of_lt (below d member) before
    rw [Expr.spine]
    cases info.kind with
    | field | index =>
      refine ⟨List.pairwise_cons.mpr ⟨List.forall_mem_map.mpr under, falling⟩, ?_⟩
      exact List.forall_mem_cons.mpr ⟨Nat.le_refl _, fun d member => Nat.le_of_lt (under d member)⟩
    | _ => exact ⟨List.pairwise_singleton _ _, List.forall_mem_singleton.mpr (Nat.le_refl _)⟩

end Sound

/-! ### What a document marks -/

namespace Doc

/-- What is marked in the document as written from the source, as often as it is marked. -/
def origins (d : Doc) : List Range := ((d.entries 0).filter (!·.synthetic)).map (·.origin)

theorem entries_origins (d : Doc) (off : Nat) :
    ((d.entries off).filter (!·.synthetic)).map (·.origin) = d.origins := by
  have moved := entries_add d 0 off
  rw [Nat.zero_add] at moved
  rw [moved, List.filter_map, List.map_map]
  rfl

@[simp] theorem origins_text (s : String) : (text s).origins = [] := rfl

@[simp] theorem origins_empty : Doc.empty.origins = [] := rfl

@[simp] theorem origins_synthetic (s : String) (origin stmt : Range) :
    (synthetic s origin stmt).origins = [] := rfl

@[simp] theorem origins_when (b : Bool) (s : String) : (when_ b s).origins = [] := rfl

@[simp] theorem origins_cat (ds : List Doc) : (cat ds).origins = ds.flatMap origins := by
  induction ds with
  | nil => rfl
  | cons d ds ih =>
    rw [List.flatMap_cons, ← ih, ← entries_origins (cat ds) (0 + d.size), origins, origins, entries_cat_cons,
      List.filter_append, List.map_append]

@[simp] theorem origins_mapped (origin stmt : Range) (ds : List Doc) :
    (mapped origin stmt ds).origins = ds.flatMap origins ++ [origin] := by
  rw [← origins_cat, mapped, origins, origins, entries_marked, List.filter_append, List.map_append]
  rfl

@[simp] theorem origins_inParens (b : Bool) (d : Doc) : (inParens b d).origins = d.origins := by
  cases b <;> simp [inParens]

@[simp] theorem origins_joined (s : String) (ds : List Doc) :
    (joined s ds).flatMap origins = ds.flatMap origins := by
  fun_induction joined s ds with
  | case1 | case2 => rfl
  | case3 d ds _ ih => simp [ih]

theorem unmarked_closed (stmt : Range) : Doc.Closed (·.origins = []) stmt where
  text := origins_text
  cat ds h := by rw [origins_cat, List.flatMap_eq_nil_iff.mpr h]
  synthetic s origin := origins_synthetic s origin stmt

end Doc

section Content

open Doc (origins)

variable (g : Rendering) (stmt : Range) (info : ExprInfo) (docs : List Doc)

@[simp] theorem origins_asIndex (e : Expr) (d : Doc) : (asIndex stmt e d).origins = d.origins := by
  unfold asIndex
  cases e.info? <;> simp

@[simp] theorem origins_lead (place : Place) : (g.lead stmt info place).origins = [] :=
  (Doc.unmarked_closed stmt).lead g info place

@[simp] theorem origins_cloneMark (id : Nat) : (g.cloneMark stmt id).origins = [] :=
  (Doc.unmarked_closed stmt).cloneMark g id

@[simp] theorem origins_starMark (target : Expr) : (g.starMark target stmt).origins = [] := by
  unfold Rendering.starMark
  split
  · split <;> rfl
  · rfl

@[simp] theorem origins_adaptorDoc (info : StmtInfo) (iter : Expr) :
    (adaptorDoc g info iter).origins = [] := by
  unfold adaptorDoc
  dsimp only
  split
  · rfl
  · split <;> rfl

@[simp] theorem origins_callDoc (name : String) :
    (Rendering.callDoc name docs).flatMap origins = docs.flatMap origins := by
  simp [Rendering.callDoc]

@[simp] theorem origins_callContent (args : List Expr) :
    (g.callContent info args docs).flatMap origins = docs.flatMap origins := by
  unfold Rendering.callContent
  repeat' split
  all_goals simp

@[simp] theorem origins_indexedArgs (name : String) (args : List Expr) :
    (Rendering.indexedArgs stmt name args docs).flatMap origins = docs.flatMap origins := by
  unfold Rendering.indexedArgs
  split
  · rw [List.flatMap_cons, List.flatMap_cons]
    split <;> simp
  · rfl

@[simp] theorem origins_methodContent (base : Doc) (args : List Expr) :
    (g.methodContent stmt info base args docs).flatMap origins = base.origins ++ docs.flatMap origins := by
  unfold Rendering.methodContent
  split
  · simp
  · dsimp only
    split <;> simp

@[simp] theorem origins_letName (b : Nat) :
    (letName g b stmt).origins = ((g.module.binding? b).map (·.span)).toList := by
  unfold letName
  split <;> simp_all

@[simp] theorem origins_loopName (b : Nat) :
    (loopName g b stmt).origins = ((g.module.binding? b).map (·.span)).toList := by
  unfold loopName
  split <;> simp_all

@[simp] theorem origins_closureParam (b : Nat) :
    (closureParam g stmt b).origins = ((g.module.binding? b).map (·.span)).toList := by
  unfold closureParam
  split <;> simp_all

@[simp] theorem origins_closureContent (body : Doc) :
    (g.closureContent stmt info body).flatMap origins =
      (info.params.filterMap fun b => (g.module.binding? b).map (·.span)) ++ body.origins := by
  unfold Rendering.closureContent
  split <;> simp [List.flatMap_map, List.filterMap_eq_flatMap_toList]

end Content

def Node.origins (m : Module) (n : Node) : List Range :=
  (match n with
    | .expr (.node info ..) => [info.span]
    | .stmt (.node info ..) => [info.span]
    | _ => []) ++ n.labels m

/-- The document marks these nodes, each of them as often as it is listed. -/
def Doc.Marks (g : Rendering) (d : Doc) (ns : List Node) : Prop :=
  d.origins.Perm (ns.flatMap (Node.origins g.module))

section Lists

variable {g : Rendering} (depth : Nat) (stmt : Range)

theorem args_origins {args : List Expr}
    (each : ∀ e ∈ args, ∀ depth stmt place, (e.render g depth stmt place).Marks g e.written)
    (place : Nat → Place) (i : Nat) :
    ((Expr.renderAll g depth stmt args place i).flatMap Doc.origins).Perm
      ((Expr.writtenAll args).flatMap (Node.origins g.module)) := by
  induction args generalizing i with
  | nil => exact .refl _
  | cons e es ih =>
    obtain ⟨head, tail⟩ := List.forall_mem_cons.mp each
    rw [Expr.renderAll, Expr.writtenAll, List.flatMap_cons, List.flatMap_append]
    exact (head depth stmt _).append (ih tail _)

theorem inits_origins {inits : List FieldInit}
    (each : ∀ i ∈ inits, ∀ depth stmt place, (i.value.render g depth stmt place).Marks g i.value.written) :
    ((FieldInit.renderAll g depth stmt inits).flatMap Doc.origins).Perm
      (inits.map FieldInit.span ++
        (FieldInit.writtenAll inits).flatMap (Node.origins g.module)) := by
  induction inits with
  | nil => exact .refl _
  | cons i is ih =>
    obtain ⟨head, tail⟩ := List.forall_mem_cons.mp each
    obtain ⟨name, span, value⟩ := i
    have own := head depth stmt .value
    have rest := ih tail
    -- the mark of a field stands behind its value, and ahead of all values in the list of marks
    simp only [Doc.Marks, FieldInit.value, List.perm_iff_count, List.count_append] at own rest ⊢
    intro r
    have own := own r
    have rest := rest r
    simp only [FieldInit.renderAll, FieldInit.writtenAll, List.flatMap_cons, List.flatMap_nil,
      Doc.origins_mapped, Doc.origins_text, List.nil_append, List.append_nil, List.flatMap_append,
      List.map_cons, FieldInit.span, List.count_append, List.count_cons, List.count_nil]
    omega

theorem block_marked {ss : List Stmt} (each : ∀ s ∈ ss, ∀ depth, (s.render g depth).Marks g s.written) :
    (blockDoc depth (Stmt.renderLines g (depth + 1) ss)).Marks g (Stmt.writtenAll ss) := by
  have lines : ((Stmt.renderLines g (depth + 1) ss).flatMap Doc.origins).Perm
      ((Stmt.writtenAll ss).flatMap (Node.origins g.module)) := by
    induction ss with
    | nil => exact .refl _
    | cons s ss ih =>
      obtain ⟨head, tail⟩ := List.forall_mem_cons.mp each
      rw [Stmt.renderLines, Stmt.writtenAll, List.flatMap_append]
      cases s with
      | absent => exact ih tail
      | node => simpa [Stmt.info?] using (head (depth + 1)).append (ih tail)
  simpa [Doc.Marks, blockDoc] using lines

end Lists

theorem render_marks (g : Rendering) : Inherits
    (fun e => ∀ depth stmt place, (e.render g depth stmt place).Marks g e.written)
    fun s => ∀ depth, (s.render g depth).Marks g s.written where
  noExpr id := by
    intro depth stmt place
    rw [Expr.render, Expr.written]
    exact .refl _
  expr info x y args inits body result hx hy hargs hinits hbody hresult := by
    intro depth stmt place
    have hx := hx depth stmt (info.xPlace x)
    have hy := hy depth stmt (info.yPlace x)
    have hargs := args_origins depth stmt hargs (g.argPlace info) 0
    have hinits := inits_origins depth stmt hinits
    rw [Doc.Marks] at hx hy ⊢
    rw [Expr.render, Expr.written, Doc.origins_mapped, List.flatMap_cons]
    refine List.perm_append_comm.trans ?_
    simp only [Node.origins, Node.labels, List.cons_append, List.flatMap_cons, List.flatMap_append,
      List.flatMap_nil, origins_lead, origins_cloneMark, List.append_nil, List.nil_append]
    refine .cons _ ?_
    unfold Rendering.exprContent
    cases kind : info.kind with
    | ident | lit => simp
    | call => simpa using hargs
    | methodCall => simpa using hx.append hargs
    | field | unary => simpa using hx
    | index | range => simpa using hx.append hy
    | binary =>
      dsimp only
      split <;> simpa using hx.append hy
    | structLit =>
      simp only [List.cons_append, List.flatMap_cons, List.flatMap_append, Doc.origins_joined,
        Doc.origins_text, List.flatMap_nil, List.nil_append, List.append_nil]
      exact hinits
    | arrayLit =>
      dsimp only
      split
      · rename_i none
        simp [List.isEmpty_iff.mp none, Expr.writtenAll]
      · simpa using hargs
    | closure =>
      simp only [origins_closureContent]
      refine .append_left _ ?_
      split
      · exact hbody depth
      · exact hresult depth stmt .value
  noStmt id := by
    intro depth
    rw [Stmt.render, Stmt.written]
    exact .refl _
  stmt info target value body orElse htarget hvalue hbody helse := by
    intro depth
    have htarget := htarget depth info.span .plain
    have hvalue := hvalue depth info.span (info.valuePlace target)
    have hbody := block_marked depth hbody
    have helse := helse depth
    rw [Doc.Marks] at htarget hvalue hbody helse ⊢
    rw [Stmt.render, Stmt.written, Doc.origins_mapped, List.flatMap_cons]
    refine List.perm_append_comm.trans ?_
    simp only [Node.origins, Node.labels, List.cons_append, List.nil_append]
    refine .cons _ ?_
    unfold Rendering.stmtContent
    cases kind : info.kind with
    | letVar =>
      simp only [List.flatMap_append]
      split
      · simp [Rendering.mutMark]
      · simpa [Rendering.mutMark] using hvalue.append_left _
    | assign => simpa using htarget.append hvalue
    | eval => simpa using hvalue
    | give =>
      dsimp only
      split <;> simp [hvalue]
    | branch =>
      cases orElse with
      | absent => simpa [Stmt.info?, Stmt.written] using hvalue.append hbody
      | node => simpa [Stmt.info?] using (hvalue.append hbody).append helse
    | whileLoop => simpa using hvalue.append hbody
    | forLoop => simpa [Rendering.mutMark] using (hvalue.append hbody).append_left _
    | leave | again => simp
    | block => simpa using hbody

namespace Module

variable (m : Module)

def arena : Arena := ⟨m.exprs, m.stmts⟩

def tops : List Node := m.funcs.flatMap fun f => f.body.map .stmt

def refs : List Ref := m.tops.map Node.ref ++ m.arena.slots

def met (F : List Stmt → List Node) : List Ref := (m.funcs.flatMap (F ·.body)).map Node.ref

/-- Every node stands in one slot, behind its parts and with bindings that are there. So walks end and
meet nothing twice. -/
structure IsForest : Prop where
  exprs : ∀ id, 1 ≤ id → id ≤ m.exprs.size → m.refs.count (.expr id) = 1
  stmts : ∀ id, 1 ≤ id → id ≤ m.stmts.size → m.refs.count (.stmt id) = 1
  filled : ∀ r ∈ m.refs, r.id ≠ 0 → ∃ v, m.arena.at? r = some v ∧ v.ref = r
  after : ∀ v ∈ m.arena.nodes, ∀ r ∈ v.slots, r.Precedes v.ref
  known : ∀ b ∈ (m.funcs.flatMap fun f => f.receiver :: f.params) ++ m.arena.nodes.flatMap Node.bindings,
    b ≠ 0 → (m.binding? b).isSome
  bound : ∀ v ∈ m.arena.nodes, v.IsBound
  ends : WellFounded m.arena.Slot
  inspected : (m.met Stmt.nodesAll).Nodup
  /-- Collecting the uses of a function goes along its visits, and these meet nothing twice. -/
  collected : (m.met Stmt.visitsAll).Nodup ∧
    ∀ f ∈ m.funcs, ∀ table, f.CollectedBy table (Stmt.visitsAll f.body)
  /-- The text has each function with a body once, and marks the nodes that are written of the body, each
  as often as it is written; and these meet nothing twice. -/
  rendered : (m.met Stmt.writtenAll).Nodup ∧
    (m.layout.filterMap Piece.func?).Perm (Layout.written m) ∧
    ∀ f ∈ m.funcs, ∀ g depth,
      (blockDoc depth (Stmt.renderLines g (depth + 1) f.body)).Marks g (Stmt.writtenAll f.body)
  rooted : ∀ e ∈ m.exprs, (e.spine.map Expr.id).Pairwise (· > ·) ∧
    e.root = (e.spine.getLast?.map Expr.root).getD 0

end Module

theorem accept_forest {fs : FileSet} {disk : String → Option Bytes} {d : Document} {m : Module}
    (accepted : (d.accept fs disk).2 = .ok m) : m.IsForest := by
  obtain ⟨file, inside⟩ := Document.accept_in accepted
  obtain ⟨finished, -, inputs⟩ := Document.acceptIn_finish inside
  have finished : Finishes m.bindings.size {} m.tops m.arena := finished
  have sound := finished_sound finished ⟨rfl, rfl, List.forall_mem_nil _⟩
  have counted : ∀ r : Ref, r.id ≠ 0 → m.refs.count r = m.arena.refs.count r := by
    intro r proper
    have balance := slots_count finished proper
    simpa [Module.refs, Arena.slots, Arena.refs, Arena.nodes, Nat.add_comm] using balance
  have once : ∀ r ∈ m.arena.refs, m.arena.refs.count r = 1 :=
    fun r member => List.count_eq_one_of_mem sound.distinct member
  have walked {E : Expr → List Node} {S : Stmt → List Node} {F : List Stmt → List Node}
      (walks : Walks E S) (gathers : Gathers F S) : (m.met F).Nodup := by
    rw [List.nodup_iff_count_le_one]
    intro r
    have met := finished_walked walks finished ((· == r) ∘ Node.ref)
    have same : m.tops.flatMap (Node.elim E S) = m.funcs.flatMap (F ·.body) := by
      simp only [Module.tops, List.flatMap_assoc, List.flatMap_map, gathers.flatMap]
      rfl
    have distinct := List.nodup_iff_count_le_one.mp sound.distinct r
    rw [Module.met, List.count, List.countP_map, ← same]
    rw [Arena.refs, List.count, List.countP_map] at distinct
    omega
  constructor
  · intro id proper inside
    refine (counted _ (by simp [Ref.id]; omega)).trans (once _ ?_)
    rw [sound.refs_eq]
    simp [Module.arena]
    omega
  · intro id proper inside
    refine (counted _ (by simp [Ref.id]; omega)).trans (once _ ?_)
    rw [sound.refs_eq]
    simp [Module.arena]
    omega
  · intro r member proper
    have there := List.count_pos_iff.mpr member
    rw [counted r proper] at there
    obtain ⟨v, stored, rfl⟩ := List.mem_map.mp (List.count_pos_iff.mp there)
    have filed := (sound.nodes v stored).filed
    cases absent : v.isAbsent with
    | true => exact absurd ((Node.filed_absent absent).mp filed) proper
    | false => exact ⟨v, ((Node.filed_iff absent).mp filed).1, rfl⟩
  · exact fun v member => (sound.nodes v member).after
  · intro p member proper
    refine m.binding_isSome ?_ proper
    rcases List.mem_append.mp member with input | inner
    · obtain ⟨f, there, input⟩ := List.mem_flatMap.mp input
      exact inputs f there p input
    · obtain ⟨v, there, inner⟩ := List.mem_flatMap.mp inner
      exact (sound.nodes v there).known p inner
  · exact fun v member => (sound.nodes v member).bound
  · exact slots_end sound
  · exact walked nodes_walk nodes_stmts
  · exact ⟨walked visits_walk visits_stmts, fun f _ table => f.collected_visits table⟩
  · exact ⟨walked written_walk written_stmts, Layout.layout_funcs m,
      fun f _ g depth => block_marked depth ((render_marks g).onStmts f.body)⟩
  · intro e member
    have filed := (sound.nodes (.expr e) (by simpa [Module.arena, Arena.nodes] using member)).filed
    exact ⟨(spine_decreases sound e filed).1, e.root_spine⟩

def Sample.reaching : Document :=
  loopOver (.node { kind := "closure", span := [1, 21, 1, 23] } .absent .absent [] []
    (.node { kind := "block" } .absent .absent
      [.node { kind := "return" } .absent
        (.node { kind := "field", name := "a" }
          (.node { kind := "ident", name := "xs", binding := 7 } .absent .absent [] [] .absent .absent)
          .absent [] [] .absent .absent) [] .absent] .absent) .absent)

theorem Sample.reaching_accepted : reaching.program?.isSome = true := by decide +kernel

theorem reaching_forest : ∃ m, (Sample.reaching.accept {} fun _ => none).2 = .ok m ∧
    m.exprs.size = 3 ∧ m.stmts.size = 3 ∧ m.IsForest := by
  have accepted := Document.accept_program Sample.reaching_accepted
  exact ⟨_, accepted, by decide +kernel, by decide +kernel, accept_forest accepted⟩

end Tenure
