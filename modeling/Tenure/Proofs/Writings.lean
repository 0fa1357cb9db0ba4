import Tenure.Proofs.Content
import Tenure.Proofs.Layouts
import Tenure.Proofs.Leaves
import Tenure.Proofs.Rounds
import Tenure.Proofs.Traversals

/- The text of what is written. The document of a node that is written stands in the document of the
   function around it, and every function with a body has its place in the file. -/
namespace Tenure

open Backend (whole pieceDoc)

namespace Doc

def Shows (root d : Doc) : Prop := ∃ o, root.At o d

def Among (ds : List Doc) (d : Doc) : Prop := ∃ e ∈ ds, e.Shows d

section Shows

variable {root d e : Doc} {ds : List Doc}

theorem Shows.refl (d : Doc) : d.Shows d := ⟨0, .here d⟩

theorem Shows.trans (first : root.Shows d) (second : d.Shows e) : root.Shows e := by
  obtain ⟨o, first⟩ := first
  obtain ⟨p, second⟩ := second
  exact ⟨o + p, first.trans second⟩

theorem Among.of_mem (h : d ∈ ds) : Among ds d := ⟨d, h, .refl d⟩

theorem Among.cat (h : Among ds d) : (Doc.cat ds).Shows d := by
  obtain ⟨e, he, shows_⟩ := h
  exact Shows.trans (At.of_mem he) shows_

theorem Among.mapped {origin stmt : Range} (h : Among ds d) : (Doc.mapped origin stmt ds).Shows d := by
  obtain ⟨o, part⟩ := h.cat
  exact ⟨o, .marked part⟩

theorem Among.mono {es : List Doc} (h : Among ds d) (sub : ds ⊆ es) : Among es d := by
  obtain ⟨e, he, shows_⟩ := h
  exact ⟨e, sub he, shows_⟩

theorem inParens_shows (b : Bool) (d : Doc) : (inParens b d).Shows d := by
  unfold inParens
  split
  · exact (Among.of_mem (by simp)).cat
  · exact .refl d

theorem subset_joined (s : String) (ds : List Doc) : ds ⊆ joined s ds := by
  fun_induction joined s ds with
  | case1 => exact List.nil_subset _
  | case2 d => exact List.Subset.refl _
  | case3 d ds _ ih =>
    exact List.cons_subset_cons _ (List.subset_cons_of_subset _ ih)

theorem subset_callDoc (name : String) (args : List Doc) : args ⊆ Rendering.callDoc name args := by
  unfold Rendering.callDoc
  intro d h
  simp [subset_joined ", " args h]

theorem asIndex_shows (stmt : Range) (e : Expr) (d : Doc) : (asIndex stmt e d).Shows d :=
  Among.cat ⟨_, List.mem_cons_self, inParens_shows _ d⟩

end Shows

section Content

variable {g : Rendering} {stmt : Range} {info : ExprInfo} {args : List Expr} {docs : List Doc} {d : Doc}

theorem among_callContent (h : d ∈ docs) : Among (g.callContent info args docs) d := by
  have call : ∀ name, Among (Rendering.callDoc name docs) d :=
    fun name => .of_mem (subset_callDoc name docs h)
  have printed : ∀ name format, Among (Rendering.callDoc name (.text format :: docs)) d :=
    fun name format => .of_mem (subset_callDoc name _ (List.mem_cons_of_mem _ h))
  unfold Rendering.callContent
  split
  · exact call _
  · split
    · exact call _
    · split
      · exact printed _ _
      · exact printed _ _
      · exact call _
      · exact call _
      · exact call _
      · split
        · obtain rfl := List.mem_singleton.mp h
          exact ⟨_, List.mem_cons_self, inParens_shows _ d⟩
        · exact call _
      · exact call _

theorem among_indexedArgs (name : String) (h : d ∈ docs) :
    Among (Rendering.indexedArgs stmt name args docs) d := by
  unfold Rendering.indexedArgs
  split
  · rcases List.mem_cons.mp h with rfl | later
    · refine ⟨_, List.mem_cons_self, ?_⟩
      split
      · exact asIndex_shows stmt _ d
      · exact .refl d
    · exact .of_mem (List.mem_cons_of_mem _ later)
  · exact .of_mem h

theorem among_methodContent {base : Doc} (h : base.Shows d ∨ d ∈ docs) :
    Among (g.methodContent stmt info base args docs) d := by
  have call : ∀ name, Among (base :: Rendering.callDoc name
      (Rendering.indexedArgs stmt info.name args docs)) d := by
    intro name
    rcases h with first | given
    · exact ⟨base, List.mem_cons_self, first⟩
    · exact (among_indexedArgs info.name given).mono
        (List.subset_cons_of_subset _ (subset_callDoc name _))
  unfold Rendering.methodContent
  split
  · rcases h with first | given
    · exact ⟨base, List.mem_cons_self, first⟩
    · exact .of_mem (List.mem_cons_of_mem _ (subset_callDoc _ docs given))
  · dsimp only
    split
    · exact (call _).mono (List.subset_append_of_subset_left _ (List.subset_cons_self _ _))
    · exact (call _).mono (List.subset_append_left _ _)
    · exact call _

theorem among_closureContent (body : Doc) : Among (g.closureContent stmt info body) body :=
  .of_mem (by simp [Rendering.closureContent])

variable {x y : Expr} {first second body : Doc} {inits : List Doc}

theorem among_base (has : info.kind.hasBase = true) :
    Among (g.exprContent stmt info x y args first second docs inits body) first := by
  unfold Rendering.exprContent
  cases kind : info.kind with
  | methodCall => exact among_methodContent (.inl (inParens_shows _ _))
  | field | index => exact ⟨_, List.mem_cons_self, inParens_shows _ _⟩
  | binary => exact .of_mem (by dsimp only; split <;> simp)
  | unary | range => exact .of_mem (by simp)
  | _ => rw [kind] at has; cases has

theorem among_second (has : info.kind.hasSecond = true) :
    Among (g.exprContent stmt info x y args first second docs inits body) second := by
  unfold Rendering.exprContent
  cases kind : info.kind with
  | index => exact ⟨asIndex stmt y second, by simp, asIndex_shows _ _ _⟩
  | binary => exact .of_mem (by dsimp only; split <;> simp)
  | range => exact .of_mem (by simp)
  | _ => rw [kind] at has; cases has

theorem among_args {depth i : Nat} {place : Nat → Place} (has : info.kind.hasArgs = true)
    (h : d ∈ Expr.renderAll g depth stmt args place i) : Among (g.exprContent stmt info x y args first
      second (Expr.renderAll g depth stmt args place i) inits body) d := by
  unfold Rendering.exprContent
  cases kind : info.kind with
  | call => exact among_callContent h
  | methodCall => exact among_methodContent (.inr h)
  | arrayLit =>
    have filled : args.isEmpty = false := by
      cases args with
      | nil => rw [Expr.renderAll] at h; cases h
      | cons => rfl
    exact .of_mem (by simp [filled, subset_joined ", " _ h])
  | _ => rw [kind] at has; cases has

theorem among_inits (kind : info.kind = .structLit) (h : d ∈ inits) :
    Among (g.exprContent stmt info x y args first second docs inits body) d := by
  unfold Rendering.exprContent
  rw [kind]
  exact .of_mem (by simp [subset_joined ", " _ h])

theorem among_body (kind : info.kind = .closure) :
    Among (g.exprContent stmt info x y args first second docs inits body) body := by
  unfold Rendering.exprContent
  rw [kind]
  exact among_closureContent body

end Content

section StmtContent

variable {g : Rendering} {info : StmtInfo} {target value : Expr} {aim source block : Doc}
  {orElse : Option Doc}

theorem among_target (kind : info.kind = .assign) :
    Among (g.stmtContent info target value aim source block orElse) aim := by
  unfold Rendering.stmtContent
  rw [kind]
  exact .of_mem (by simp)

theorem among_value (has : info.hasValue value = true) :
    Among (g.stmtContent info target value aim source block orElse) source := by
  unfold StmtInfo.hasValue at has
  unfold Rendering.stmtContent
  cases kind : info.kind with
  | letVar | give =>
    have there : value.id ≠ 0 := by simpa [kind] using has
    exact .of_mem (by simp [there])
  | assign | eval | branch | whileLoop | forLoop => exact .of_mem (by simp)
  | leave | again | block => rw [kind] at has; cases has

theorem among_block (has : info.kind.hasBlock = true) :
    Among (g.stmtContent info target value aim source block orElse) block := by
  unfold Rendering.stmtContent
  cases kind : info.kind with
  | branch | whileLoop | forLoop | block => exact .of_mem (by simp)
  | _ => rw [kind] at has; cases has

theorem among_else {d : Doc} (kind : info.kind = .branch) :
    Among (g.stmtContent info target value aim source block (some d)) d := by
  unfold Rendering.stmtContent
  rw [kind]
  exact .of_mem (by simp)

end StmtContent

end Doc

section Parts

variable {n : Node}

theorem Expr.mem_written {info : ExprInfo} {x y : Expr} {args : List Expr} {inits : List FieldInit}
    {body : Stmt} {result : Expr} : n ∈ (Expr.node info x y args inits body result).written ↔
      n = .expr (.node info x y args inits body result) ∨
      info.kind.hasBase = true ∧ n ∈ x.written ∨ info.kind.hasSecond = true ∧ n ∈ y.written ∨
      info.kind.hasArgs = true ∧ n ∈ Expr.writtenAll args ∨
      info.kind = .structLit ∧ n ∈ FieldInit.writtenAll inits ∨
      info.kind = .closure ∧ n ∈ (if body.info?.isSome then body.written else result.written) := by
  rw [Expr.written, List.mem_cons]
  generalize info.kind = kind
  cases kind <;> simp [ExprKind.hasBase, ExprKind.hasSecond, ExprKind.hasArgs]

theorem Stmt.mem_written {info : StmtInfo} {target value : Expr} {body : List Stmt} {orElse : Stmt} :
    n ∈ (Stmt.node info target value body orElse).written ↔
      n = .stmt (.node info target value body orElse) ∨
      info.kind = .assign ∧ n ∈ target.written ∨ info.hasValue value = true ∧ n ∈ value.written ∨
      info.kind.hasBlock = true ∧ n ∈ Stmt.writtenAll body ∨
      info.kind = .branch ∧ n ∈ orElse.written := by
  rw [Stmt.written, List.mem_cons, StmtInfo.hasValue]
  generalize info.kind = kind
  cases kind <;> by_cases value.id = 0 <;> simp_all [StmtKind.hasBlock]

end Parts

def Node.ShownIn (g : Rendering) (root : Doc) : Node → Prop
  | .expr e => ∃ depth stmt place, root.Shows (e.render g depth stmt place)
  | .stmt s => ∃ depth, root.Shows (s.render g depth)

theorem Node.ShownIn.within {g : Rendering} {root d : Doc} {n : Node} (h : n.ShownIn g d)
    (shows_ : root.Shows d) : n.ShownIn g root := by
  cases n with
  | expr e =>
    obtain ⟨depth, stmt, place, inner⟩ := h
    exact ⟨depth, stmt, place, shows_.trans inner⟩
  | stmt s =>
    obtain ⟨depth, inner⟩ := h
    exact ⟨depth, shows_.trans inner⟩

theorem blockDoc_shows {depth : Nat} {lines : List Doc} {d : Doc} (h : d ∈ lines) :
    (blockDoc depth lines).Shows d :=
  (Doc.Among.of_mem (by simp [h])).cat

section Content

variable {g : Rendering} {depth : Nat} {d : Doc}

theorem expr_shows {stmt : Range} {place : Place} {info : ExprInfo} {x y : Expr} {args : List Expr}
    {inits : List FieldInit} {body : Stmt} {result : Expr}
    (h : Doc.Among (g.exprContent stmt info x y args (x.render g depth stmt (info.xPlace x))
      (y.render g depth stmt (info.yPlace x)) (Expr.renderAll g depth stmt args (g.argPlace info) 0)
      (FieldInit.renderAll g depth stmt inits)
      (if body.info?.isSome then body.render g depth else result.render g depth stmt .value)) d) :
    ((Expr.node info x y args inits body result).render g depth stmt place).Shows d := by
  rw [Expr.render]
  exact (h.mono (by simp)).mapped

theorem stmt_shows {info : StmtInfo} {target value : Expr} {body : List Stmt} {orElse : Stmt}
    (h : Doc.Among (g.stmtContent info target value (target.render g depth info.span .plain)
      (value.render g depth info.span (info.valuePlace target))
      (blockDoc depth (Stmt.renderLines g (depth + 1) body))
      (if orElse.info?.isSome then some (orElse.render g depth) else none)) d) :
    ((Stmt.node info target value body orElse).render g depth).Shows d := by
  rw [Stmt.render]
  exact h.mapped

end Content

theorem Stmt.there_of_written {s : Stmt} {n : Node} (h : n ∈ s.written) : s.info?.isSome = true := by
  cases s with
  | absent => rw [Stmt.written] at h; cases h
  | node => rfl

namespace Writing

variable {g : Rendering} {p w : Writing} {n : Node}

def written (w : Writing) : List Node := w.node.elim Expr.written Stmt.written

theorem node_written (there : w.node.isAbsent = false) : w.node ∈ w.written := by
  rcases w with ⟨_, _, _ | _, _⟩ | ⟨_, _ | _⟩
  · cases there
  · exact List.mem_cons_self
  · cases there
  · exact List.mem_cons_self

theorem Part.shows_ (part : p.Part g w) : (w.doc g).Shows (p.doc g) := by
  cases part with
  | base has => exact expr_shows (Doc.among_base has)
  | second has => exact expr_shows (Doc.among_second has)
  | arg has here =>
    refine expr_shows (Doc.among_args has ?_)
    obtain ⟨bound, rfl⟩ := List.getElem?_eq_some_iff.mp here
    rw [renderAll_eq]
    exact List.mem_mapIdx.mpr ⟨_, bound, by rw [Nat.zero_add]; rfl⟩
  | init kind member =>
    exact (expr_shows (Doc.among_inits kind (renderInits_eq g .. ▸ List.mem_map_of_mem member))).trans
      (Doc.Among.of_mem (by simp [doc])).mapped
  | body kind there | result kind there =>
    refine expr_shows ?_
    simp only [there, if_true]
    exact Doc.among_body kind
  | target kind => exact stmt_shows (Doc.among_target kind)
  | value has => exact stmt_shows (Doc.among_value has)
  | line has member there =>
    exact (stmt_shows (Doc.among_block has)).trans (blockDoc_shows (line_written member there))
  | orElse kind there =>
    refine stmt_shows ?_
    rw [if_pos there]
    exact Doc.among_else kind

theorem Part.written (part : p.Part g w) : p.written ⊆ w.written := by
  intro n member
  cases part with
  | arg has here =>
    have inside := List.mem_flatMap_of_mem (List.mem_of_getElem? here) member
    rw [← written_exprs.flatMap] at inside
    simp_all [Writing.written, node, Node.elim, Expr.mem_written]
  | init kind inside =>
    have inside := List.mem_flatMap_of_mem (f := (·.value.written)) inside member
    rw [← written_inits.flatMap] at inside
    simp_all [Writing.written, node, Node.elim, Expr.mem_written]
  | line has inside =>
    have inside := List.mem_flatMap_of_mem inside member
    rw [← written_stmts.flatMap] at inside
    simp_all [Writing.written, node, Node.elim, Stmt.mem_written]
  | _ => simp_all [Writing.written, node, Node.elim, Expr.mem_written, Stmt.mem_written]

theorem mem_written (g : Rendering) (member : n ∈ w.written) :
    n = w.node ∨ ∃ p : Writing, p.Part g w ∧ n ∈ p.written := by
  rcases w with ⟨depth, r, _ | ⟨info, x, y, args, inits, body, result⟩, place⟩ |
    ⟨depth, _ | ⟨info, target, value, body, orElse⟩⟩
  · cases member
  · rcases Expr.mem_written.mp member with rfl | ⟨has, part⟩ | ⟨has, part⟩ | ⟨has, part⟩ |
      ⟨kind, part⟩ | ⟨kind, part⟩
    · exact .inl rfl
    · exact .inr ⟨_, .base has, part⟩
    · exact .inr ⟨_, .second has, part⟩
    · obtain ⟨e, inside, part⟩ := List.mem_flatMap.mp (written_exprs.flatMap args ▸ part)
      obtain ⟨i, here⟩ := List.mem_iff_getElem?.mp inside
      exact .inr ⟨_, .arg has here, part⟩
    · obtain ⟨i, inside, part⟩ := List.mem_flatMap.mp (written_inits.flatMap inits ▸ part)
      exact .inr ⟨_, .init kind inside, part⟩
    · split at part
      · exact .inr ⟨_, .body kind (by assumption), part⟩
      · exact .inr ⟨_, .result kind (by assumption), part⟩
  · cases member
  · rcases Stmt.mem_written.mp member with rfl | ⟨kind, part⟩ | ⟨has, part⟩ | ⟨has, part⟩ | ⟨kind, part⟩
    · exact .inl rfl
    · exact .inr ⟨_, .target kind, part⟩
    · exact .inr ⟨_, .value has, part⟩
    · obtain ⟨s, inside, part⟩ := List.mem_flatMap.mp (written_stmts.flatMap body ▸ part)
      exact .inr ⟨_, .line has inside (Stmt.there_of_written part), part⟩
    · exact .inr ⟨_, .orElse kind (Stmt.there_of_written part), part⟩

theorem written_shown (g : Rendering) (w : Writing) : ∀ n ∈ w.written, n.ShownIn g (w.doc g) := by
  induction w using Writing.part_induction (g := g) with
  | step w ih =>
    intro n member
    rcases mem_written g member with rfl | ⟨p, part, inner⟩
    · cases w with
      | expr depth r e place => exact ⟨depth, r, place, .refl _⟩
      | stmt depth s => exact ⟨depth, .refl _⟩
    · exact (ih p part n inner).within part.shows_

end Writing

theorem stmts_written_shown (g : Rendering) (depth : Nat) {ss : List Stmt} {n : Node}
    (member : n ∈ Stmt.writtenAll ss) : ∃ d ∈ Stmt.renderLines g depth ss, n.ShownIn g d := by
  obtain ⟨s, inside, member⟩ := List.mem_flatMap.mp (written_stmts.flatMap ss ▸ member)
  exact ⟨_, line_written inside (Stmt.there_of_written member),
    Writing.written_shown g (.stmt depth s) n member⟩

theorem declaration_shown {a : Analysis} {f : FuncDecl} (there : f ∈ Layout.written a.module) :
    ∃ depth, (whole a).Shows (f.declaration (Rendering.of a f) depth) := by
  obtain ⟨depth, placed⟩ := Layout.func_placed.mpr there
  let g := Rendering.of a f
  have piece : (whole a).Shows (f.render g depth) :=
    (Doc.Among.of_mem (List.mem_cons_of_mem _ (List.mem_map.mpr ⟨_, placed, rfl⟩))).cat
  have declared : (f.render g depth).Shows (f.declaration g depth) :=
    (Doc.Among.of_mem (by simp)).cat
  exact ⟨depth, piece.trans declared⟩

theorem body_shown {a : Analysis} {f : FuncDecl} (there : f ∈ Layout.written a.module) :
    ∃ depth, (whole a).Shows
      (blockDoc depth (Stmt.renderLines (Rendering.of a f) (depth + 1) f.body)) := by
  obtain ⟨depth, declared⟩ := declaration_shown there
  exact ⟨depth, declared.trans (Doc.Among.of_mem (by simp)).mapped⟩

theorem func_written_shown {a : Analysis} {f : FuncDecl} (there : f ∈ Layout.written a.module)
    {n : Node} (member : n ∈ f.written) : n.ShownIn (Rendering.of a f) (whole a) := by
  obtain ⟨depth, block⟩ := body_shown there
  obtain ⟨d, line, shown⟩ := stmts_written_shown (Rendering.of a f) (depth + 1) member
  exact shown.within (block.trans (blockDoc_shows line))

theorem rendering_verdict {m : Module} (filed : m.Filed) {f : FuncDecl} (there : f ∈ Layout.written m)
    (limit : Int) : (Rendering.of (Analysis.of m limit) f).verdict =
      (f.analyze m (Analysis.of m limit).table).verdict := by
  let analyze := FuncDecl.analyze m (Analysis.of m limit).table
  have found : (Layout.written m).find? (·.id == f.id) = some f := by
    cases search : (Layout.written m).find? (·.id == f.id) with
    | none => exact absurd (beq_self_eq_true f.id) (List.find?_eq_none.mp search f there)
    | some h =>
      have same : h.id = f.id := by simpa using List.find?_some search
      have known := (List.mem_filter.mp (List.mem_of_find?_eq_some search)).1
      rw [List.inj_on_of_nodup_map filed.ids known (List.mem_filter.mp there).1 same]
  have own : (Analysis.of m limit).funcs.find? (·.func.id == f.id) = some (analyze f) := by
    rw [analysis_funcs, List.find?_map]
    exact congrArg (Option.map analyze) found
  rw [Rendering.of]
  simp only [own]
  rfl

end Tenure
