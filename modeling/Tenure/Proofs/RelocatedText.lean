import Tenure.Backend.Generate
import Tenure.Proofs.Declarations
import Tenure.Proofs.RelocatedAnalysis

/- The text of a program with other spans. It is the same text, and its marks have the other spans. -/
namespace Tenure

def Mark.respan (τ : Range → Range) (m : Mark) : Mark :=
  { origin := τ m.origin, stmt := τ m.stmt, synthetic := m.synthetic }

def Entry.respan (τ : Range → Range) (e : Entry) : Entry :=
  { e with origin := τ e.origin, stmt := τ e.stmt }

namespace Doc

mutual
def respan (τ : Range → Range) : Doc → Doc
  | .text s => .text s
  | .cat ds => .cat (respanAll τ ds)
  | .marked m d => .marked (m.respan τ) (d.respan τ)
  | .fault => .fault
def respanAll (τ : Range → Range) : List Doc → List Doc
  | [] => []
  | d :: ds => d.respan τ :: respanAll τ ds
end

variable {τ : Range → Range}

theorem respanAll_eq (ds : List Doc) : respanAll τ ds = ds.map (respan τ) := by
  induction ds with
  | nil => rw [respanAll, List.map_nil]
  | cons d ds ih => rw [respanAll, List.map_cons, ih]

@[simp] theorem respan_text (s : String) : (Doc.text s).respan τ = .text s := by rw [respan]

@[simp] theorem respan_cat (ds : List Doc) : (Doc.cat ds).respan τ = .cat (ds.map (respan τ)) := by
  rw [respan, respanAll_eq]

@[simp] theorem respan_marked (m : Mark) (d : Doc) :
    (Doc.marked m d).respan τ = .marked (m.respan τ) (d.respan τ) := by rw [respan]

@[simp] theorem respan_fault : Doc.fault.respan τ = .fault := by rw [respan]

@[simp] theorem respan_empty : Doc.empty.respan τ = .empty := respan_text _

@[simp] theorem respan_when (b : Bool) (s : String) : (when_ b s).respan τ = when_ b s := respan_text _

@[simp] theorem respan_synthetic (s : String) (origin stmt : Range) :
    (synthetic s origin stmt).respan τ = synthetic s (τ origin) (τ stmt) := by
  simp [synthetic, Mark.respan]

@[simp] theorem respan_mapped (origin stmt : Range) (ds : List Doc) :
    (mapped origin stmt ds).respan τ = mapped (τ origin) (τ stmt) (ds.map (respan τ)) := by
  simp [mapped, Mark.respan]

@[simp] theorem respan_inParens (b : Bool) (d : Doc) : (inParens b d).respan τ = inParens b (d.respan τ) := by
  cases b <;> simp [inParens]

@[simp] theorem respan_joined (s : String) (ds : List Doc) :
    (joined s ds).map (respan τ) = joined s (ds.map (respan τ)) := by
  induction ds with
  | nil => rfl
  | cons d ds ih =>
    cases ds with
    | nil => rfl
    | cons e es => simpa [joined] using ih

theorem respan_same (d : Doc) : d.respan id = d := by
  induction d using parts_induction with
  | text s => simp
  | nil | fault => simp
  | cons d ds ihd ihds =>
    rw [respan_cat, cat.injEq] at ihds
    rw [respan_cat, List.map_cons, ihd, ihds]
  | marked m d ih => simp [ih, Mark.respan]

theorem size_respan (d : Doc) : (d.respan τ).size = d.size := by
  induction d using parts_induction with
  | text s => simp
  | nil | fault => simp
  | cons d ds ihd ihds => simpa [ihd] using ihds
  | marked m d ih => simpa using ih

theorem flat_respan (d : Doc) : (d.respan τ).flat = d.flat := by
  induction d using parts_induction with
  | text s => simp
  | nil | fault => simp
  | cons d ds ihd ihds => simpa [ihd] using ihds
  | marked m d ih => simpa using ih

theorem isSound_respan (d : Doc) : (d.respan τ).isSound = d.isSound := by
  induction d using parts_induction with
  | text s => rw [respan_text]
  | nil => simp
  | cons d ds ihd ihds =>
    rw [respan_cat] at ihds ⊢
    rw [List.map_cons, isSound, isSoundAll, isSound, isSoundAll, ihd]
    rw [isSound, isSound] at ihds
    rw [ihds]
  | marked m d ih => rw [respan_marked, isSound, isSound, ih]
  | fault => rw [respan_fault]

theorem entries_respan (d : Doc) (off : Nat) :
    (d.respan τ).entries off = (d.entries off).map (Entry.respan τ) := by
  induction d using parts_induction generalizing off with
  | text s => simp
  | nil | fault => simp
  | cons d ds ihd ihds =>
    rw [respan_cat] at ihds
    rw [respan_cat, List.map_cons, entries_cat_cons, entries_cat_cons, List.map_append, ihd, ihds,
      size_respan]
  | marked m d ih =>
    rw [respan_marked, entries_marked, entries_marked, List.map_append, ih]
    simp [Mark.entry, Mark.respan, Entry.respan, size_respan]

theorem stackable_respan (ds : List Doc) (off : Nat) :
    Stackable off (ds.map (respan τ)) ↔ Stackable off ds := by
  induction ds generalizing off with
  | nil => rfl
  | cons d ds ih =>
    have words : (d.respan τ).InWords 0 ↔ d.InWords 0 := by
      rw [InWords, InWords, entries_respan, List.forall_mem_map]
      rfl
    rw [List.map_cons, Stackable, Stackable, size_respan, ih, words]

theorem isStack_respan (d : Doc) : (d.respan τ).IsStack ↔ d.IsStack := by
  cases d with
  | cat ds =>
    cases ds with
    | nil => rw [respan_cat]; rfl
    | cons d ds => rw [respan_cat, List.map_cons, IsStack, IsStack, size_respan, stackable_respan]
  | text s => rw [respan_text]
  | marked m d => rw [respan_marked]; rfl
  | fault => rw [respan_fault]

end Doc

/-! ### Expressions and statements -/

structure Rendering.Moved (τ : Range → Range) (F : List Diagnostic → List Diagnostic → Prop)
    (flag : Nat → Bool → Bool) (g h : Rendering) : Prop where
  bindings : ∀ b, h.module.binding? b = (g.module.binding? b).map (Binding.redeclare τ (flag b))
  table : h.table = g.table
  verdict : g.verdict.Moved τ F h.verdict
  escaping : h.escaping = g.escaping
  header : h.header = g.header
  loops : h.loops = g.loops

theorem exprs_respan_eq {τ : Range → Range} (es : List Expr) :
    Expr.respanAll τ es = es.map (Expr.respan τ) := by
  induction es with
  | nil => rw [Expr.respanAll, List.map_nil]
  | cons e es ih => rw [Expr.respanAll, List.map_cons, ih]

section Parts

variable {τ : Range → Range} {F : List Diagnostic → List Diagnostic → Prop} {flag : Nat → Bool → Bool}
  {g h : Rendering}

section Moved

variable (moved : g.Moved τ F flag h)

include moved

namespace Rendering.Moved

theorem mode (b : Nat) : h.mode b = g.mode b := by
  rw [Rendering.mode, Rendering.mode, Verdict.mode, Verdict.mode, moved.header, moved.verdict.modes]

theorem ref (b : Nat) : h.ref b = g.ref b := by
  unfold Rendering.ref
  rw [moved.bindings, moved.mode, moved.loops]
  cases g.module.binding? b <;> rfl

theorem mutMark (b : Nat) : h.mutMark b = g.mutMark b := by
  rw [Rendering.mutMark, Rendering.mutMark, Rendering.needsMut, Rendering.needsMut, Verdict.isMutated,
    Verdict.isMutated, moved.ref, moved.verdict.mutated]

theorem bindingName (b : Nat) : h.bindingName b = g.bindingName b := by
  unfold Rendering.bindingName
  rw [moved.bindings]
  cases g.module.binding? b <;> rfl

theorem duplicate (expr : Nat) :
    h.verdict.duplicate? expr = (g.verdict.duplicate? expr).map (DuplicatePoint.respan τ) := by
  unfold Verdict.duplicate?
  rw [moved.verdict.outcome.points, ← List.map_reverse, List.find?_map]
  rfl

theorem captureClones (closure : Nat) : h.verdict.captureClones closure = g.verdict.captureClones closure := by
  unfold Verdict.captureClones
  rw [moved.verdict.outcome.points, List.filter_map, List.map_map]
  rfl

theorem lead (stmt : Range) (info : ExprInfo) (place : Place) :
    h.lead (τ stmt) (info.respan τ) place = (g.lead stmt info place).respan τ := by
  unfold Rendering.lead
  simp only [moved.ref]
  cases place <;> simp only [Doc.respan_empty, apply_ite (Doc.respan τ), Doc.respan_synthetic] <;> rfl

theorem cloneMark (stmt : Range) (expr : Nat) :
    h.cloneMark (τ stmt) expr = (g.cloneMark stmt expr).respan τ := by
  unfold Rendering.cloneMark
  rw [moved.duplicate]
  cases g.verdict.duplicate? expr <;> simp [DuplicatePoint.respan]

theorem letName (b : Nat) (stmt : Range) : letName h b (τ stmt) = (letName g b stmt).respan τ := by
  unfold Tenure.letName
  rw [moved.bindings, moved.bindingName]
  cases g.module.binding? b <;> simp [Binding.redeclare]

theorem loopName (b : Nat) (stmt : Range) : loopName h b (τ stmt) = (loopName g b stmt).respan τ := by
  unfold Tenure.loopName
  rw [moved.bindings, moved.bindingName]
  cases g.module.binding? b <;> simp [Binding.redeclare]

theorem closureParam (stmt : Range) (b : Nat) :
    closureParam h (τ stmt) b = (closureParam g stmt b).respan τ := by
  unfold Tenure.closureParam
  rw [moved.bindings, moved.bindingName]
  cases g.module.binding? b <;> simp [Binding.redeclare]

theorem adaptorDoc (info : StmtInfo) (iter : Expr) :
    adaptorDoc h (info.respan τ) (iter.respan τ) = (adaptorDoc g info iter).respan τ := by
  unfold Tenure.adaptorDoc Verdict.adaptor
  rw [moved.verdict.adaptors, Expr.respan_info, info.respan_id]
  dsimp only
  rw [apply_ite (Doc.respan τ)]
  cases iter.info? <;> simp

theorem starMark (target : Expr) (stmt : Range) :
    h.starMark (target.respan τ) (τ stmt) = (g.starMark target stmt).respan τ := by
  unfold Rendering.starMark
  rw [Expr.respan_info]
  cases target.info? with
  | none => simp
  | some t =>
    simp only [Option.map_some, moved.ref, ExprInfo.respan_binding, apply_ite (Doc.respan τ),
      Doc.respan_synthetic, Doc.respan_empty]
    rfl

omit moved in
theorem asIndex (stmt : Range) (e : Expr) (d : Doc) :
    asIndex (τ stmt) (e.respan τ) (d.respan τ) = (asIndex stmt e d).respan τ := by
  simp only [Tenure.asIndex, Expr.isSimple, Expr.respan_isKind, Expr.respan_info]
  cases e.info? <;> simp

omit moved in
theorem printFormat (args : List Expr) : printFormat (args.map (Expr.respan τ)) = printFormat args := by
  simp only [Tenure.printFormat, List.map_map, Function.comp_def, Expr.respan_ty]

omit moved in
theorem callDoc (name : String) (args : List Doc) :
    Rendering.callDoc name (args.map (Doc.respan τ)) = (Rendering.callDoc name args).map (Doc.respan τ) := by
  simp [Rendering.callDoc]

omit moved in
theorem indexedArgs (stmt : Range) (name : String) (args : List Expr) (docs : List Doc) :
    Rendering.indexedArgs (τ stmt) name (args.map (Expr.respan τ)) (docs.map (Doc.respan τ)) =
      (Rendering.indexedArgs stmt name args docs).map (Doc.respan τ) := by
  cases args with
  | nil => rfl
  | cons a args =>
    cases docs with
    | nil => rfl
    | cons d docs =>
      simp only [List.map_cons, Rendering.indexedArgs, apply_ite (Doc.respan τ), asIndex]

theorem argPlace (info : ExprInfo) : h.argPlace (info.respan τ) = g.argPlace info := by
  funext i
  unfold Rendering.argPlace
  rw [moved.table]
  rfl

theorem callContent (info : ExprInfo) (args : List Expr) (docs : List Doc) :
    h.callContent (info.respan τ) (args.map (Expr.respan τ)) (docs.map (Doc.respan τ)) =
      (g.callContent info args docs).map (Doc.respan τ) := by
  have callee : (info.respan τ).callee = info.callee := rfl
  unfold Rendering.callContent
  rw [moved.table, moved.bindingName, callee, info.respan_binding, info.respan_name]
  split
  · exact callDoc _ docs
  split
  · exact callDoc _ docs
  split
  case h_1 | h_2 => rw [printFormat, ← callDoc, List.map_cons, Doc.respan_text]
  case h_6 =>
    rcases args with _ | ⟨arg, _ | ⟨arg', args⟩⟩
    · exact callDoc _ docs
    · rcases docs with _ | ⟨doc, _ | ⟨doc', docs⟩⟩
      · exact callDoc _ []
      · simp [Expr.needsParens]
      · exact callDoc _ (doc :: doc' :: docs)
    · exact callDoc _ docs
  all_goals exact callDoc _ docs

theorem methodContent (stmt : Range) (info : ExprInfo) (base : Doc) (args : List Expr)
    (docs : List Doc) :
    h.methodContent (τ stmt) (info.respan τ) (base.respan τ) (args.map (Expr.respan τ))
        (docs.map (Doc.respan τ)) =
      (g.methodContent stmt info base args docs).map (Doc.respan τ) := by
  unfold Rendering.methodContent
  rw [moved.table, info.respan_target, info.respan_name, info.respan_span, indexedArgs]
  split
  · rw [callDoc, List.map_cons]
  simp only [callDoc]
  split
  · simp
  · simp
  · simp

theorem closureContent (stmt : Range) (info : ExprInfo) (body : Doc) :
    h.closureContent (τ stmt) (info.respan τ) (body.respan τ) =
      (g.closureContent stmt info body).map (Doc.respan τ) := by
  have names : Tenure.closureParam h (τ stmt) = fun b => (Tenure.closureParam g stmt b).respan τ :=
    funext (moved.closureParam stmt)
  unfold Rendering.closureContent Rendering.escapes
  simp only [moved.escaping, moved.captureClones, moved.bindingName, info.respan_id, info.respan_span,
    info.respan_params, List.map_append, List.map_cons, List.map_nil, List.map_map, Doc.respan_joined,
    Doc.respan_when, Doc.respan_text, apply_ite (Doc.respan τ), Doc.respan_synthetic, Doc.respan_empty,
    names, Function.comp_def]

theorem exprContent (stmt : Range) (info : ExprInfo) (x y : Expr) (args : List Expr)
    (xDoc yDoc : Doc) (argDocs initDocs : List Doc) (bodyDoc : Doc) :
    h.exprContent (τ stmt) (info.respan τ) (x.respan τ) (y.respan τ) (args.map (Expr.respan τ))
        (xDoc.respan τ) (yDoc.respan τ) (argDocs.map (Doc.respan τ)) (initDocs.map (Doc.respan τ))
        (bodyDoc.respan τ) =
      (g.exprContent stmt info x y args xDoc yDoc argDocs initDocs bodyDoc).map (Doc.respan τ) := by
  have parens : (x.respan τ).needsParens = x.needsParens := by simp [Expr.needsParens]
  have joins : (info.respan τ).joinsText (x.respan τ) = info.joinsText x := by
    simp [ExprInfo.joinsText]
  unfold Rendering.exprContent
  rw [parens, joins, info.respan_kind]
  cases info.kind <;> dsimp only
  · simp [moved.bindingName]
  · simp; rfl
  · exact moved.callContent info args argDocs
  · rw [← Doc.respan_inParens]
    exact moved.methodContent stmt info _ args argDocs
  · simp
  · simp [asIndex]
  · split <;> simp
  · simp
  · simp
  · rw [List.isEmpty_map]
    split <;> simp
  · simp
  · exact moved.closureContent stmt info bodyDoc

theorem stmtContent (info : StmtInfo) (target value : Expr) (targetDoc valueDoc block : Doc)
    (orElse : Option Doc) :
    h.stmtContent (info.respan τ) (target.respan τ) (value.respan τ) (targetDoc.respan τ)
        (valueDoc.respan τ) (block.respan τ) (orElse.map (Doc.respan τ)) =
      (g.stmtContent info target value targetDoc valueDoc block orElse).map (Doc.respan τ) := by
  have mark (b : Nat) : (g.mutMark b).respan τ = g.mutMark b := Doc.respan_when _ _
  have op : (info.respan τ).assignOp = info.assignOp := rfl
  unfold Rendering.stmtContent
  rw [info.respan_kind, info.respan_binding, info.respan_span, value.respan_id, moved.mutMark, op,
    moved.letName, moved.loopName, moved.starMark, moved.adaptorDoc]
  cases info.kind <;> dsimp only
  · split <;> simp [mark]
  · simp
  · simp
  · split <;> simp
  · cases orElse <;> simp
  · simp
  · simp [mark]
  · simp
  · simp
  · simp

end Rendering.Moved

end Moved

theorem blockDoc_respan (depth : Nat) (lines : List Doc) :
    blockDoc depth (lines.map (Doc.respan τ)) = (blockDoc depth lines).respan τ := by
  simp [blockDoc]

mutual
theorem expr_render_respan (moved : g.Moved τ F flag h) (depth : Nat) (stmt : Range) :
    ∀ (e : Expr) (place : Place),
      (e.respan τ).render h depth (τ stmt) place = (e.render g depth stmt place).respan τ
  | .absent _, place => by simp [Expr.respan, Expr.render]
  | .node info x y args inits body result, place => by
    have xPlace : (info.respan τ).xPlace (x.respan τ) = info.xPlace x := by
      simp only [ExprInfo.xPlace, ExprInfo.joinsText, Expr.respan_ty]
      rfl
    have yPlace : (info.respan τ).yPlace (x.respan τ) = info.yPlace x := by
      simp only [ExprInfo.yPlace, ExprInfo.joinsText, Expr.respan_ty]
      rfl
    rw [Expr.respan, Expr.render, Expr.render]
    simp only [xPlace, yPlace, moved.argPlace, Stmt.respan_info, Option.isSome_map,
      expr_render_respan moved depth stmt x, expr_render_respan moved depth stmt y,
      exprs_render_respan moved depth stmt args, inits_render_respan moved depth stmt inits,
      stmt_render_respan moved depth body, expr_render_respan moved depth stmt result,
      ← apply_ite (Doc.respan τ), exprs_respan_eq, moved.lead, moved.cloneMark, moved.exprContent]
    simp
theorem exprs_render_respan (moved : g.Moved τ F flag h) (depth : Nat) (stmt : Range) :
    ∀ (es : List Expr) (place : Nat → Place) (i : Nat),
    Expr.renderAll h depth (τ stmt) (es.map (Expr.respan τ)) place i =
      (Expr.renderAll g depth stmt es place i).map (Doc.respan τ)
  | [], place, i => by simp [Expr.renderAll]
  | e :: es, place, i => by
    simp [Expr.renderAll, expr_render_respan moved depth stmt e,
      exprs_render_respan moved depth stmt es]
theorem inits_render_respan (moved : g.Moved τ F flag h) (depth : Nat) (stmt : Range) : ∀ is : List FieldInit,
    FieldInit.renderAll h depth (τ stmt) (FieldInit.respanAll τ is) =
      (FieldInit.renderAll g depth stmt is).map (Doc.respan τ)
  | [] => by simp [FieldInit.respanAll, FieldInit.renderAll]
  | .mk name span value :: is => by
    simp [FieldInit.respanAll, FieldInit.renderAll, expr_render_respan moved depth stmt value,
      inits_render_respan moved depth stmt is]
theorem stmt_render_respan (moved : g.Moved τ F flag h) (depth : Nat) : ∀ s : Stmt,
    (s.respan τ).render h depth = (s.render g depth).respan τ
  | .absent _ => by simp [Stmt.respan, Stmt.render]
  | .node info target value body orElse => by
    have place : (info.respan τ).valuePlace (target.respan τ) = info.valuePlace target := by
      simp only [StmtInfo.valuePlace, Expr.respan_ty]
      rfl
    have other : (if orElse.info?.isSome then some ((orElse.render g depth).respan τ) else none) =
        (if orElse.info?.isSome then some (orElse.render g depth) else none).map (Doc.respan τ) := by
      split <;> rfl
    rw [Stmt.respan, Stmt.render, Stmt.render]
    simp only [place, info.respan_span, expr_render_respan moved depth info.span target,
      expr_render_respan moved depth info.span value, lines_render_respan moved (depth + 1) body,
      blockDoc_respan, Stmt.respan_info, Option.isSome_map, stmt_render_respan moved depth orElse, other,
      moved.stmtContent, Doc.respan_mapped]
theorem lines_render_respan (moved : g.Moved τ F flag h) (depth : Nat) : ∀ ss : List Stmt,
    Stmt.renderLines h depth (Stmt.respanAll τ ss) = (Stmt.renderLines g depth ss).map (Doc.respan τ)
  | [] => by simp [Stmt.respanAll, Stmt.renderLines]
  | s :: ss => by
    rw [Stmt.respanAll, Stmt.renderLines, Stmt.renderLines]
    rw [stmt_render_respan moved depth s, lines_render_respan moved depth ss, Stmt.respan_info, Option.isSome_map]
    split <;> simp
end

theorem func_render_respan (moved : g.Moved τ F flag h) (f : FuncDecl) (depth : Nat) :
    (f.respan τ).render h depth = (f.render g depth).respan τ := by
  have mark (b : Nat) : (g.mutMark b).respan τ = g.mutMark b := Doc.respan_when _ _
  have receiver : (f.respan τ).receiverDoc h = (f.receiverDoc g).respan τ := by
    unfold FuncDecl.receiverDoc
    rw [moved.bindings, show (f.respan τ).receiver = f.receiver from rfl, moved.ref, moved.mutMark]
    cases g.module.binding? f.receiver with
    | none => simp
    | some b => cases g.ref f.receiver <;> simp [Binding.redeclare, FuncDecl.respan, mark]
  have param (p : Nat) : (f.respan τ).paramDoc h p = (f.paramDoc g p).respan τ := by
    unfold FuncDecl.paramDoc
    rw [moved.bindings, moved.ref, moved.mutMark]
    cases g.module.binding? p <;> simp [Binding.redeclare, FuncDecl.respan, mark]
  have params : (f.respan τ).params.map ((f.respan τ).paramDoc h) =
      (f.params.map (f.paramDoc g)).map (Doc.respan τ) := by
    rw [List.map_map]
    exact List.map_congr_left fun p _ => param p
  have body := lines_render_respan moved (depth + 1) f.body
  have inputs : (if (f.respan τ).receiver = 0 then [] else [(f.respan τ).receiverDoc h]) =
      (if f.receiver = 0 then [] else [f.receiverDoc g]).map (Doc.respan τ) := by
    rw [receiver, apply_ite (List.map (Doc.respan τ))]
    rfl
  rw [FuncDecl.render, FuncDecl.render, FuncDecl.declaration, FuncDecl.declaration, params, inputs]
  rw [show (f.respan τ).body = Stmt.respanAll τ f.body from rfl, body, blockDoc_respan,
    ← List.map_append, ← Doc.respan_joined]
  simp only [Doc.respan_cat, Doc.respan_mapped, List.map_cons, List.map_append, Doc.respan_text,
    List.map_nil]
  rfl

end Parts

/-! ### Declarations -/

section Whole

variable {τ : Range → Range}

theorem struct_render_respan (s : StructDecl) : (s.respan τ).render = s.render.respan τ := by
  have field (f : Field) : (s.respan τ).fieldDoc (f.respan τ) = (s.fieldDoc f).respan τ := by
    simp [StructDecl.fieldDoc, StructDecl.respan, Field.respan]
  have fields : (s.respan τ).fields.map (s.respan τ).fieldDoc =
      (s.fields.map s.fieldDoc).map (Doc.respan τ) := by
    rw [StructDecl.respan, List.map_map, List.map_map]
    exact List.map_congr_left fun f _ => field f
  rw [StructDecl.render, StructDecl.render, StructDecl.declaration, StructDecl.declaration, fields]
  simp only [Doc.respan_cat, Doc.respan_mapped, List.map_cons, List.map_append, Doc.respan_text,
    List.map_nil]
  rfl

def Piece.respan (τ : Range → Range) : Piece → Piece
  | .struct s => .struct (s.respan τ)
  | .func f depth => .func (f.respan τ) depth
  | .text s => .text s

variable {F : List Diagnostic → List Diagnostic → Prop} {flag : Nat → Bool → Bool} {m n : Module}
  (reworked : m.Reworked τ F flag n)

include reworked

theorem written_respan : Layout.written n = (Layout.written m).map (FuncDecl.respan τ) := by
  rw [Layout.written, reworked.funcs, List.filter_map]
  rfl

omit reworked in
theorem methodPieces_respan (fs : List FuncDecl) :
    Layout.methodPieces (fs.map (FuncDecl.respan τ)) =
      (Layout.methodPieces fs).map (Piece.respan τ) := by
  induction fs with
  | nil => rfl
  | cons f fs ih =>
    cases fs with
    | nil => rfl
    | cons e es =>
      exact congrArg (fun rest => Piece.func (f.respan τ) 1 :: Piece.text "\n" :: rest) ih

theorem implBlock_respan (owner : String) :
    Layout.implBlock n owner = (Layout.implBlock m owner).map (Piece.respan τ) := by
  have methods : Layout.methodsOf n owner =
      (Layout.methodsOf m owner).map (FuncDecl.respan τ) := by
    rw [Layout.methodsOf, Layout.methodsOf, written_respan reworked, List.filter_map]
    rfl
  unfold Layout.implBlock
  rw [methods]
  cases Layout.methodsOf m owner with
  | nil => rfl
  | cons f fs =>
    change _ :: _ ++ _ = List.map _ (_ :: _ ++ _)
    rw [List.map_append, List.map_cons (l := Layout.methodPieces (f :: fs)), ← methodPieces_respan]
    rfl

theorem structPieces_respan (seen : List String) (ss : List StructDecl) :
    Layout.structPieces n seen (ss.map (StructDecl.respan τ)) =
      (Layout.structPieces m seen ss).map (Piece.respan τ) := by
  induction ss generalizing seen with
  | nil => rfl
  | cons s ss ih =>
    simp only [List.map_cons, Layout.structPieces, List.map_append]
    rw [ih, implBlock_respan reworked, apply_ite (List.map (Piece.respan τ))]
    rfl

theorem layout_respan : n.layout = m.layout.map (Piece.respan τ) := by
  have owners : Layout.owners n = Layout.owners m := by
    rw [Layout.owners, Layout.owners, written_respan reworked, List.map_map]
    rfl
  have names : n.structs.map (·.name) = m.structs.map (·.name) := by
    rw [reworked.structs, List.map_map]
    rfl
  have free : Layout.free n = (Layout.free m).map (FuncDecl.respan τ) := by
    rw [Layout.free, Layout.free, written_respan reworked, List.filter_map]
    rfl
  have blocks : Layout.implBlock n = fun o => (Layout.implBlock m o).map (Piece.respan τ) :=
    funext (implBlock_respan reworked)
  unfold Module.layout
  rw [owners, names, free, blocks, List.map_append, List.map_append, List.map_flatMap,
    List.map_flatMap, List.flatMap_map, ← structPieces_respan reworked, ← reworked.structs]
  rfl

omit reworked in
theorem loopsOf_respan (f : FuncDecl) {v w : Verdict} (adaptors : w.adaptors = v.adaptors) :
    Rendering.loopsOf (f.respan τ) w = Rendering.loopsOf f v := by
  unfold Rendering.loopsOf Verdict.adaptor
  rw [FuncDecl.respan, stmts_nodes_respan, List.filterMap_map, adaptors]
  refine congrArg (fun which => (List.filterMap which (Stmt.nodesAll f.body)).reverse)
    (funext fun n => ?_)
  cases n with
  | expr e => rfl
  | stmt s =>
    cases s with
    | absent => rfl
    | node info target value body orElse =>
      rw [Function.comp_apply, Node.respan, Stmt.respan]
      rfl

theorem rendering_moved (limit : Int) (f : FuncDecl) :
    (Rendering.of (Analysis.of m limit) f).Moved τ F flag
      (Rendering.of (Analysis.of n limit) (f.respan τ)) := by
  have last := last_moved reworked limit
  have same : ∀ {fa ga : FuncAnalysis}, fa.Moved τ F ga →
      (ga.func.id == f.id) = (fa.func.id == f.id) := by
    intro fa ga moved
    rw [moved.func]
    rfl
  have found := find_in_step last.funcs same
  unfold Rendering.of Analysis.funcs Analysis.table
  rw [last.table, show (f.respan τ).id = f.id from rfl]
  generalize (Analysis.of m limit).last.funcs.find? (·.func.id == f.id) = fa at found ⊢
  generalize (Analysis.of n limit).last.funcs.find? (·.func.id == f.id) = ga at found ⊢
  cases found with
  | none =>
    exact ⟨reworked.bindings, rfl, ⟨rfl, rfl, rfl, rfl, reworked.none⟩, rfl, rfl, loopsOf_respan f rfl⟩
  | some same =>
    refine ⟨reworked.bindings, rfl, same.verdict, ?_, rfl, loopsOf_respan f same.verdict.adaptors⟩
    simp only [Option.map_some, same.uses]
    rfl

theorem whole_moved (limit : Int) :
    Backend.whole (Analysis.of n limit) = (Backend.whole (Analysis.of m limit)).respan τ := by
  have piece (p : Piece) : Backend.pieceDoc (Analysis.of n limit) (p.respan τ) =
      (Backend.pieceDoc (Analysis.of m limit) p).respan τ := by
    cases p with
    | struct s => exact struct_render_respan s
    | func f depth => exact func_render_respan (rendering_moved reworked limit f) f depth
    | text s => exact (Doc.respan_text s).symm
  have pieces : n.layout.map (Backend.pieceDoc (Analysis.of n limit)) =
      (m.layout.map (Backend.pieceDoc (Analysis.of m limit))).map (Doc.respan τ) := by
    rw [layout_respan reworked, List.map_map, List.map_map]
    exact List.map_congr_left fun p _ => piece p
  have header : Backend.header n = (Backend.header m).respan τ := by
    simp [Backend.header, reworked.path]
  unfold Backend.whole
  rw [Doc.respan_cat, List.map_cons]
  exact congrArg Doc.cat (congrArg₂ List.cons header pieces)

end Whole

theorem whole_respan {τ : Range → Range} (m : Module) (file : Nat) :
    Backend.whole (Analysis.of (m.respan τ file)) = (Backend.whole (Analysis.of m)).respan τ :=
  whole_moved (respan_reworked τ m file) 0

end Tenure
