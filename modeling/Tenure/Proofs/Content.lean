import Tenure.Backend.Generate
import Tenure.Proofs.Trees

/- Rendering puts documents together from texts, scaffolding and the documents of parts. Whatever
   these constructions keep holds of the result when it holds of the parts. -/
namespace Tenure

def ExprKind.hasBase : ExprKind → Bool
  | .methodCall | .field | .index | .binary | .unary | .range => true
  | _ => false

def ExprKind.hasSecond : ExprKind → Bool
  | .index | .binary | .range => true
  | _ => false

def ExprKind.hasArgs : ExprKind → Bool
  | .call | .methodCall | .arrayLit => true
  | _ => false

def StmtKind.hasBlock : StmtKind → Bool
  | .branch | .whileLoop | .forLoop | .block => true
  | _ => false

def StmtInfo.hasValue (info : StmtInfo) (value : Expr) : Bool :=
  match info.kind with
  | .letVar | .give => value.id ≠ 0
  | .assign | .eval | .branch | .whileLoop | .forLoop => true
  | .leave | .again | .block => false

/-- Holds of all plain text and of scaffolding in a statement, and of sequences when it holds of
their parts. -/
structure Doc.Closed (P : Doc → Prop) (stmt : Range) : Prop where
  text : ∀ s, P (.text s)
  cat : ∀ ds, (∀ d ∈ ds, P d) → P (.cat ds)
  synthetic : ∀ s origin, P (Doc.synthetic s origin stmt)

namespace Doc.Closed

variable {P : Doc → Prop} {stmt : Range} (closed : Doc.Closed P stmt)

include closed

theorem when_ (b : Bool) (s : String) : P (Doc.when_ b s) := closed.text _

theorem inParens {b : Bool} {d : Doc} (h : P d) : P (Doc.inParens b d) := by
  unfold Doc.inParens
  split
  · apply closed.cat
    simp [closed.text, h]
  · exact h

theorem joined {s : String} {ds : List Doc} (h : ∀ d ∈ ds, P d) : ∀ d ∈ Doc.joined s ds, P d := by
  fun_induction Doc.joined s ds with
  | case1 => simp
  | case2 d => exact h
  | case3 d ds _ ih =>
    rw [List.forall_mem_cons] at h
    simp only [List.forall_mem_cons]
    exact ⟨h.1, closed.text s, ih h.2⟩

theorem callDoc {name : String} {args : List Doc} (h : ∀ d ∈ args, P d) :
    ∀ d ∈ Rendering.callDoc name args, P d := by
  simp only [Rendering.callDoc, List.cons_append, List.forall_mem_cons, List.forall_mem_append]
  exact ⟨closed.text _, closed.joined h, closed.text _, by simp⟩

theorem asIndex {e : Expr} {d : Doc} (h : P d) : P (asIndex stmt e d) := by
  apply closed.cat
  simp only [List.forall_mem_cons]
  refine ⟨closed.inParens h, ?_, by simp⟩
  split
  · exact closed.synthetic _ _
  · exact closed.text _

section Expr

variable (g : Rendering) (info : ExprInfo)

theorem lead (place : Place) : P (g.lead stmt info place) := by
  have mark : ∀ (b : Bool) (s : String),
      P (if b = true then Doc.synthetic s info.span stmt else .empty) := by
    intro b s
    split
    · exact closed.synthetic _ _
    · exact closed.text _
  unfold Rendering.lead
  cases place with
  | plain => exact closed.text _
  | operand | value | shared | exclusive => exact mark _ _

theorem cloneMark (expr : Nat) : P (g.cloneMark stmt expr) := by
  unfold Rendering.cloneMark
  split
  · exact closed.synthetic _ _
  · exact closed.text _

variable {args : List Expr} {docs : List Doc}

theorem callContent (h : ∀ d ∈ docs, P d) : ∀ d ∈ g.callContent info args docs, P d := by
  unfold Rendering.callContent
  split
  · exact closed.callDoc h
  · split
    · exact closed.callDoc h
    · split
      · exact closed.callDoc (List.forall_mem_cons.mpr ⟨closed.text _, h⟩)
      · exact closed.callDoc (List.forall_mem_cons.mpr ⟨closed.text _, h⟩)
      · exact closed.callDoc h
      · exact closed.callDoc h
      · exact closed.callDoc h
      · split
        · simp only [List.forall_mem_cons] at h ⊢
          exact ⟨closed.inParens h.1, closed.text _, by simp⟩
        · exact closed.callDoc h
      · exact closed.callDoc h

theorem indexedArgs {name : String} (h : ∀ d ∈ docs, P d) :
    ∀ d ∈ Rendering.indexedArgs stmt name args docs, P d := by
  unfold Rendering.indexedArgs
  split
  · rw [List.forall_mem_cons] at h ⊢
    refine ⟨?_, h.2⟩
    split
    · exact closed.asIndex h.1
    · exact h.1
  · exact h

theorem methodContent {base : Doc} (hb : P base)
    (h : ∀ d ∈ docs, P d) : ∀ d ∈ g.methodContent stmt info base args docs, P d := by
  have call : ∀ name, ∀ d ∈ base :: Rendering.callDoc name
      (Rendering.indexedArgs stmt info.name args docs), P d :=
    fun name => List.forall_mem_cons.mpr ⟨hb, closed.callDoc (closed.indexedArgs h)⟩
  unfold Rendering.methodContent
  split
  · exact List.forall_mem_cons.mpr ⟨hb, closed.callDoc h⟩
  · dsimp only
    split
    · rw [List.cons_append, List.forall_mem_cons, List.forall_mem_append]
      exact ⟨closed.synthetic _ _, call _, by simp [closed.synthetic]⟩
    · rw [List.forall_mem_append]
      exact ⟨call _, by simp [closed.synthetic]⟩
    · exact call _

theorem closureContent {body : Doc} (hb : P body)
    (params : ∀ b ∈ info.params, P (closureParam g stmt b)) :
    ∀ d ∈ g.closureContent stmt info body, P d := by
  have escape : P (if g.escapes info.id then Doc.synthetic "move " info.span stmt else .empty) := by
    split
    · exact closed.synthetic _ _
    · exact closed.text _
  have named : ∀ d ∈ Doc.joined ", " (info.params.map (closureParam g stmt)), P d :=
    closed.joined (by simpa using params)
  simp only [Rendering.closureContent, List.cons_append, List.forall_mem_cons,
    List.forall_mem_append, List.forall_mem_map]
  exact ⟨closed.when_ _ _, ⟨⟨fun _ _ => closed.synthetic _ _, escape, closed.text _, by simp⟩, named⟩,
    closed.text _, hb, closed.when_ _ _, by simp⟩

theorem exprContent {x y : Expr} {xDoc yDoc bodyDoc : Doc}
    {argDocs initDocs : List Doc} (hx : info.kind.hasBase = true → P xDoc)
    (hy : info.kind.hasSecond = true → P yDoc)
    (hargs : info.kind.hasArgs = true → ∀ d ∈ argDocs, P d)
    (hinits : info.kind = .structLit → ∀ d ∈ initDocs, P d) (hbody : info.kind = .closure → P bodyDoc)
    (params : info.kind = .closure → ∀ b ∈ info.params, P (closureParam g stmt b)) :
    ∀ d ∈ g.exprContent stmt info x y args xDoc yDoc argDocs initDocs bodyDoc, P d := by
  unfold Rendering.exprContent
  cases kind : info.kind with
  | ident | lit => simp [closed.text]
  | call => exact closed.callContent g info (hargs (by rw [kind]; rfl))
  | methodCall =>
    exact closed.methodContent g info (closed.inParens (hx (by rw [kind]; rfl)))
      (hargs (by rw [kind]; rfl))
  | field =>
    have hx := hx (by rw [kind]; rfl)
    simp [closed.inParens hx, closed.text]
  | index =>
    have hx := hx (by rw [kind]; rfl)
    have hy := hy (by rw [kind]; rfl)
    simp [closed.inParens hx, closed.text, closed.asIndex hy]
  | binary =>
    have hx := hx (by rw [kind]; rfl)
    have hy := hy (by rw [kind]; rfl)
    dsimp only
    split
    · simp [hx, hy, closed.text]
    · simp [hx, hy, closed.text]
  | unary => simp [hx (by rw [kind]; rfl), closed.text]
  | structLit =>
    simp only [List.cons_append, List.forall_mem_cons, List.forall_mem_append]
    exact ⟨closed.text _, closed.joined (hinits kind), closed.text _, by simp⟩
  | arrayLit =>
    dsimp only
    split
    · simp [closed.text]
    · simp only [List.cons_append, List.forall_mem_cons, List.forall_mem_append]
      exact ⟨closed.text _, closed.joined (hargs (by rw [kind]; rfl)), closed.text _, by simp⟩
  | range => simp [hx (by rw [kind]; rfl), hy (by rw [kind]; rfl), closed.text]
  | closure => exact closed.closureContent g info (hbody kind) (params kind)

end Expr

theorem blockDoc {depth : Nat} {lines : List Doc} (h : ∀ d ∈ lines, P d) :
    P (blockDoc depth lines) := by
  apply closed.cat
  simp only [List.cons_append, List.forall_mem_cons, List.forall_mem_append]
  exact ⟨closed.text _, h, closed.text _, closed.text _, by simp⟩

theorem starMark (g : Rendering) (target : Expr) : P (g.starMark target stmt) := by
  unfold Rendering.starMark
  split
  · split
    · exact closed.synthetic _ _
    · exact closed.text _
  · exact closed.text _

end Doc.Closed

theorem Doc.Closed.stmtContent {P : Doc → Prop} (g : Rendering) (info : StmtInfo)
    (closed : Doc.Closed P info.span) {target value : Expr} {targetDoc valueDoc block : Doc}
    {orElse : Option Doc} (ht : info.kind = .assign → P targetDoc)
    (hv : info.hasValue value = true → P valueDoc) (hb : info.kind.hasBlock = true → P block)
    (he : info.kind = .branch → ∀ d ∈ orElse, P d)
    (name : info.kind = .letVar → P (letName g info.binding info.span))
    (loop : info.kind = .forLoop →
      P (loopName g info.binding info.span) ∧ P (adaptorDoc g info value)) :
    ∀ d ∈ g.stmtContent info target value targetDoc valueDoc block orElse, P d := by
  unfold StmtInfo.hasValue at hv
  unfold Rendering.stmtContent
  cases kind : info.kind with
  | letVar =>
    simp only [kind, ne_eq, decide_not, Bool.not_eq_true', decide_eq_false_iff_not] at hv
    simp only [List.forall_mem_append, List.forall_mem_cons]
    refine ⟨⟨⟨closed.text _, closed.when_ _ _, name kind, by simp⟩, ?_⟩, closed.text _, by simp⟩
    split
    · simp
    · rename_i there
      simp [closed.text, hv there]
  | assign =>
    have hv := hv (by rw [kind])
    simp [closed.starMark, ht kind, hv, closed.text]
  | eval =>
    have hv := hv (by rw [kind])
    simp [hv, closed.text]
  | give =>
    simp only [kind, ne_eq, decide_not, Bool.not_eq_true', decide_eq_false_iff_not] at hv
    dsimp only
    split
    · simp [closed.text]
    · rename_i there
      simp [hv there, closed.text]
  | branch =>
    have hv := hv (by rw [kind])
    simp only [List.forall_mem_append, List.forall_mem_cons]
    refine ⟨⟨closed.text _, hv, closed.text _, hb (by rw [kind]; rfl), by simp⟩, ?_⟩
    split
    · rename_i d
      simp [closed.text, he kind d rfl]
    · simp
  | whileLoop =>
    have hv := hv (by rw [kind])
    simp [hv, hb (by rw [kind]; rfl), closed.text]
  | forLoop =>
    have hv := hv (by rw [kind])
    simp only [List.forall_mem_cons]
    exact ⟨closed.text _, closed.when_ _ _, (loop kind).1, closed.text _, hv, (loop kind).2,
      closed.text _, hb (by rw [kind]; rfl), by simp⟩
  | leave | again => simp [closed.text]
  | block => simp [hb (by rw [kind]; rfl)]

section Lists

variable (g : Rendering) (depth : Nat)

theorem renderAll_eq (stmt : Range) (es : List Expr) (place : Nat → Place) (i : Nat) :
    Expr.renderAll g depth stmt es place i =
      es.mapIdx fun k e => e.render g depth stmt (place (i + k)) := by
  induction es generalizing i with
  | nil => rfl
  | cons e es ih =>
    simp only [Expr.renderAll, ih, List.mapIdx_cons, Nat.add_zero, Nat.add_assoc, Nat.add_comm 1]

theorem renderInits_eq (stmt : Range) (is : List FieldInit) :
    FieldInit.renderAll g depth stmt is = is.map fun i => Doc.mapped i.span stmt
      [.text (Backend.identifier i.name ++ ": "), i.value.render g depth stmt .value] := by
  induction is with
  | nil => rfl
  | cons i is ih =>
    cases i
    rw [FieldInit.renderAll, ih]
    rfl

theorem renderLines_eq (ss : List Stmt) :
    Stmt.renderLines g depth ss = (ss.filter (·.info?.isSome)).flatMap fun s =>
      [.text (indentText depth), s.render g depth, .text "\n"] := by
  induction ss with
  | nil => rfl
  | cons s ss ih =>
    rw [Stmt.renderLines, ih, List.filter_cons]
    split <;> rfl

variable {g depth}

theorem forall_lines {P : Doc → Prop} {ss : List Stmt} (text : ∀ s, P (.text s))
    (h : ∀ s ∈ ss, s.info?.isSome = true → P (s.render g depth)) :
    ∀ d ∈ Stmt.renderLines g depth ss, P d := by
  simp only [renderLines_eq, List.forall_mem_flatMap, List.mem_filter]
  rintro s ⟨member, there⟩
  simpa using ⟨text _, h s member there, text _⟩

end Lists

/-- A node where it is written: an expression in a statement and at a place, or a statement. -/
inductive Writing where
  | expr (depth : Nat) (r : Range) (e : Expr) (place : Place)
  | stmt (depth : Nat) (s : Stmt)

namespace Writing

def node : Writing → Node
  | .expr _ _ e _ => .expr e
  | .stmt _ s => .stmt s

def doc (g : Rendering) : Writing → Doc
  | .expr depth r e place => e.render g depth r place
  | .stmt depth s => s.render g depth

def span (w : Writing) : Range :=
  match w.node with
  | .expr (.node info ..) => info.span
  | .stmt (.node info ..) => info.span
  | _ => Range.zero

def owner : Writing → Range
  | .expr _ r _ _ => r
  | .stmt depth s => (Writing.stmt depth s).span

def IsIn (r : Range) : Writing → Prop
  | .expr _ own _ _ => own = r
  | .stmt .. => True

inductive Part (g : Rendering) : Writing → Writing → Prop where
  | base (has : info.kind.hasBase = true) : Part g (.expr depth r x (info.xPlace x))
      (.expr depth r (.node info x y args inits body result) place)
  | second (has : info.kind.hasSecond = true) : Part g (.expr depth r y (info.yPlace x))
      (.expr depth r (.node info x y args inits body result) place)
  | arg (has : info.kind.hasArgs = true) (here : args[i]? = some e) :
      Part g (.expr depth r e (g.argPlace info i))
        (.expr depth r (.node info x y args inits body result) place)
  | init (kind : info.kind = .structLit) (member : i ∈ inits) :
      Part g (.expr depth r i.value .value)
        (.expr depth r (.node info x y args inits body result) place)
  | body (kind : info.kind = .closure) (there : body.info?.isSome = true) :
      Part g (.stmt depth body) (.expr depth r (.node info x y args inits body result) place)
  | result (kind : info.kind = .closure) (none : ¬ body.info?.isSome = true) :
      Part g (.expr depth r result .value)
        (.expr depth r (.node info x y args inits body result) place)
  | target (kind : info.kind = .assign) : Part g (.expr depth info.span target .plain)
      (.stmt depth (.node info target value body orElse))
  | value (has : info.hasValue value = true) :
      Part g (.expr depth info.span value (info.valuePlace target))
        (.stmt depth (.node info target value body orElse))
  | line (has : info.kind.hasBlock = true) (member : s ∈ body) (there : s.info?.isSome = true) :
      Part g (.stmt (depth + 1) s) (.stmt depth (.node info target value body orElse))
  | orElse (kind : info.kind = .branch) (there : orElse.info?.isSome = true) :
      Part g (.stmt depth orElse) (.stmt depth (.node info target value body orElse))

variable {g : Rendering} {p w : Writing}

theorem Part.node_mem (part : Part g p w) : p.node ∈ w.node.parts := by
  cases part with
  | arg has here => simp [node, Node.parts, List.mem_of_getElem? here]
  | init kind member =>
    simp only [node, Node.parts, List.mem_cons, List.mem_append]
    exact .inr (.inr (.inr (.inl (List.mem_map.mpr ⟨_, member, rfl⟩))))
  | line has member => simp [node, Node.parts, member]
  | _ => simp [node, Node.parts]

theorem Part.isIn (part : Part g p w) : p.IsIn w.owner := by
  cases part <;> trivial

theorem Part.there (part : Part g p w) : w.node.isAbsent = false := by
  cases part <;> rfl

theorem part_induction {P : Writing → Prop} (step : ∀ w, (∀ p, Part g p w → P p) → P w) :
    ∀ w, P w := by
  have all : ∀ (v : Node) (w : Writing), w.node = v → P w := by
    intro v
    induction v using Node.parts_induction with
    | step v ih =>
      rintro w rfl
      exact step w fun p part => ih p.node part.node_mem p rfl
  exact fun w => all w.node w rfl

end Writing

/-- Where the node names something: its fields or the bindings that it declares. -/
def Node.labels (m : Module) : Node → List Range
  | .expr (.node info _ _ _ inits _ _) =>
    match info.kind with
    | .structLit => inits.map fun | .mk _ span _ => span
    | .closure => info.params.filterMap fun b => (m.binding? b).map (·.span)
    | _ => []
  | .stmt (.node info _ _ _ _) =>
    match info.kind with
    | .letVar | .forLoop => ((m.binding? info.binding).map (·.span)).toList
    | _ => []
  | _ => []

def Node.Adapts (g : Rendering) (P : Doc → Prop) : Node → Prop
  | .stmt (.node info _ value _ _) => info.kind = .forLoop → P (adaptorDoc g info value)
  | _ => True

theorem Writing.adapts {g : Rendering} {P : Doc → Prop} (w : Writing) (closed : Doc.Closed P w.owner)
    (fault : P .fault) : w.node.Adapts g P := by
  rcases w with _ | ⟨_, _ | ⟨info, _, value⟩⟩
  · trivial
  · trivial
  · intro kind
    unfold adaptorDoc
    dsimp only
    split
    · exact closed.text _
    · split
      · exact closed.synthetic _ _
      · exact fault

/-- The property passes from what the node marks to its marks. It may depend on the statement around
them. -/
structure Writing.Keeps (g : Rendering) (P : Range → Doc → Prop) (w : Writing) : Prop where
  closed : Doc.Closed (P w.owner) w.owner
  label : ∀ origin ∈ w.node.labels g.module, ∀ content, (∀ d ∈ content, P w.owner d) →
    P w.owner (Doc.mapped origin w.owner content)
  adapts : w.node.Adapts g (P w.owner)
  mark : ∀ content, w.doc g = Doc.mapped w.span w.owner content → (∀ d ∈ content, P w.owner d) →
    ∀ r, w.IsIn r → P r (w.doc g)

structure Upholds (g : Rendering) (P : Range → Doc → Prop) (W : Writing → Prop) : Prop where
  text : ∀ r s, P r (.text s)
  keeps : W w → w.node.isAbsent = false → w.Keeps g P
  part : W w → p.Part g w → W p

namespace Upholds

variable {g : Rendering} {P : Range → Doc → Prop} {W : Writing → Prop} {w : Writing}

theorem name (up : Upholds g P W) (keeps : w.Keeps g P) {b : Nat} {name : Binding → String} {other : String}
    (listed : ∀ span, (g.module.binding? b).map (·.span) = some span → span ∈ w.node.labels g.module) :
    P w.owner (match g.module.binding? b with
      | none => .text other
      | some binding => Doc.mapped binding.span w.owner [.text (name binding)]) := by
  split
  · exact up.text _ _
  · rename_i binding known
    refine keeps.label _ (listed binding.span (by rw [known]; rfl)) _ ?_
    simpa using up.text _ _

theorem all (up : Upholds g P W) (w : Writing) : ∀ {r : Range}, W w → w.IsIn r → P r (w.doc g) := by
  induction w using Writing.part_induction (g := g) with
  | step w ih =>
    intro r good inside
    have part {p : Writing} (part : p.Part g w) : P w.owner (p.doc g) :=
      ih p part (up.part good part) part.isIn
    rcases w with ⟨depth, stmt, _ | ⟨info, x, y, args, inits, body, result⟩, place⟩ |
      ⟨depth, _ | ⟨info, target, value, body, orElse⟩⟩
    · rw [Writing.doc, Expr.render]
      exact up.text _ _
    · have keeps := up.keeps good rfl
      have closed := keeps.closed
      have fields (kind : info.kind = .structLit) (i : FieldInit) (member : i ∈ inits) :
          i.span ∈ (Node.expr (.node info x y args inits body result)).labels g.module := by
        rw [Node.labels, kind]
        exact List.mem_map.mpr ⟨i, member, by cases i; rfl⟩
      refine keeps.mark _ (by rw [Writing.doc, Expr.render]; rfl) ?_ r inside
      rw [renderAll_eq, renderInits_eq]
      simp only [List.cons_append, List.forall_mem_cons, List.forall_mem_append]
      refine ⟨closed.lead g info place, ?_, closed.cloneMark g info.id, by simp⟩
      refine closed.exprContent g info (fun has => part (.base has)) (fun has => part (.second has))
        (fun has => ?_) (fun kind => ?_) (fun kind => ?_) fun kind b member => ?_
      · intro d member
        obtain ⟨i, bound, rfl⟩ := List.mem_mapIdx.mp member
        rw [Nat.zero_add]
        exact part (.arg has (List.getElem?_eq_getElem bound))
      · rw [List.forall_mem_map]
        intro i member
        refine keeps.label _ (fields kind i member) _ ?_
        simpa using ⟨up.text _ _, part (.init kind member)⟩
      · split
        · exact part (.body kind (by assumption))
        · exact part (.result kind (by assumption))
      · refine up.name keeps fun span known => ?_
        simp only [Writing.node, Node.labels, kind]
        exact List.mem_filterMap.mpr ⟨b, member, known⟩
    · rw [Writing.doc, Stmt.render]
      exact up.text _ _
    · have keeps := up.keeps good rfl
      have closed := keeps.closed
      have declared (kind : info.kind = .letVar ∨ info.kind = .forLoop) (span : Range)
          (known : (g.module.binding? info.binding).map (·.span) = some span) :
          span ∈ (Node.stmt (.node info target value body orElse)).labels g.module := by
        rcases kind with kind | kind <;> simp [Node.labels, kind, known]
      refine keeps.mark _ (by rw [Writing.doc, Stmt.render]; rfl) ?_ r inside
      refine Doc.Closed.stmtContent g info closed (fun kind => part (.target kind))
        (fun has => part (.value has)) (fun has => closed.blockDoc ?_) (fun kind d member => ?_)
        (fun kind => up.name keeps (declared (.inl kind)))
        fun kind => ⟨up.name keeps (declared (.inr kind)), keeps.adapts kind⟩
      · exact forall_lines (up.text _) fun s member there => part (.line has member there)
      · split at member
        · obtain rfl := Option.some.inj member
          exact part (.orElse kind (by assumption))
        · cases member

theorem lines (up : Upholds g P W) {r : Range} {depth : Nat} {ss : List Stmt}
    (good : ∀ s ∈ ss, W (.stmt depth s)) : ∀ d ∈ Stmt.renderLines g depth ss, P r d :=
  forall_lines (up.text r) fun s member _ => up.all (.stmt depth s) (good s member) trivial

end Upholds

section Declarations

variable {P : Doc → Prop}

theorem Doc.Closed.funcContent {f : FuncDecl} (closed : Doc.Closed P f.span) (g : Rendering) {depth : Nat}
    (fault : P .fault)
    (label : ∀ b binding, b = f.receiver ∨ b ∈ f.params → g.module.binding? b = some binding →
      ∀ content, (∀ d ∈ content, P d) → P (Doc.mapped binding.span f.span content))
    (lines : ∀ d ∈ Stmt.renderLines g (depth + 1) f.body, P d) :
    ∃ content, f.declaration g depth = Doc.mapped f.span f.span content ∧ ∀ d ∈ content, P d := by
  have receiver : P (f.receiverDoc g) := by
    unfold FuncDecl.receiverDoc
    split
    · exact fault
    · rename_i binding found
      refine label _ binding (.inl rfl) found _ ?_
      split <;> simp [closed.text, Rendering.mutMark, Doc.when_]
  have inputs : ∀ d ∈ (if f.receiver = 0 then [] else [f.receiverDoc g]) ++ f.params.map (f.paramDoc g),
      P d := by
    rw [List.forall_mem_append, List.forall_mem_map]
    refine ⟨by split <;> simp [receiver], fun p member => ?_⟩
    unfold FuncDecl.paramDoc
    split
    · exact fault
    · rename_i binding found
      exact label p binding (.inr member) found _ (by simp [closed.text, Rendering.mutMark, Doc.when_])
  refine ⟨_, rfl, ?_⟩
  simp only [List.cons_append, List.forall_mem_cons, List.forall_mem_append]
  exact ⟨closed.text _, closed.joined inputs, closed.text _, closed.text _, closed.text _,
    closed.blockDoc lines, by simp⟩

theorem Doc.Closed.structContent {s : StructDecl} (closed : Doc.Closed P s.span)
    (label : ∀ f ∈ s.fields, ∀ content, (∀ d ∈ content, P d) → P (Doc.mapped f.span s.span content)) :
    ∃ content, s.declaration = Doc.mapped s.span s.span content ∧ ∀ d ∈ content, P d := by
  refine ⟨_, rfl, ?_⟩
  simp only [List.cons_append, List.forall_mem_cons, List.forall_mem_append, List.forall_mem_map]
  refine ⟨closed.text _, fun f member => closed.cat _ ?_, closed.text _, by simp⟩
  simp only [List.forall_mem_cons]
  exact ⟨closed.text _, label f member _ (by simp [closed.text]), closed.text _, by simp⟩

theorem whole_kept {a : Analysis} (text : ∀ s, P (.text s)) (cat : ∀ ds, (∀ d ∈ ds, P d) → P (.cat ds))
    (structs : ∀ s, .struct s ∈ a.module.layout → P s.declaration)
    (funcs : ∀ f depth, .func f depth ∈ a.module.layout →
      P (f.declaration (Rendering.of a f) depth)) : P (Backend.whole a) := by
  refine cat _ ?_
  rw [List.forall_mem_cons, List.forall_mem_map]
  refine ⟨cat _ (by simp [text]), fun p placed => ?_⟩
  cases p with
  | struct s => exact cat _ (by simp [text, structs s placed])
  | func f depth => exact cat _ (by simp [text, funcs f depth placed])
  | text s => exact text s

end Declarations

end Tenure
