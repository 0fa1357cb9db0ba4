import Tenure.Proofs.Content
import Tenure.Proofs.Layouts
import Tenure.Proofs.Passages

/- Programs whose parts lie where they belong. Their documents are owned: every mark is inside the
   statement that it names. -/
namespace Tenure

def Module.isInside (m : Module) (r : Range) (b : Nat) : Bool :=
  (m.binding? b).all fun binding => r.contains binding.span

mutual
/-- Every part of the expression lies in the innermost statement around it, which is `stmt` unless it
is a statement of a closure. -/
def Expr.isSpanned (m : Module) (stmt : Range) : Expr → Bool
  | .absent _ => true
  | .node info x y args inits body result =>
    stmt.contains info.span &&
      (if info.kind = .closure then info.params.all (m.isInside stmt) else true) &&
      x.isSpanned m stmt && y.isSpanned m stmt && Expr.areSpanned m stmt args &&
      FieldInit.areSpanned m stmt inits && body.isSpanned m && result.isSpanned m stmt
def Expr.areSpanned (m : Module) (stmt : Range) : List Expr → Bool
  | [] => true
  | e :: es => e.isSpanned m stmt && Expr.areSpanned m stmt es
def FieldInit.areSpanned (m : Module) (stmt : Range) : List FieldInit → Bool
  | [] => true
  | .mk _ span value :: is =>
    stmt.contains span && value.isSpanned m stmt && FieldInit.areSpanned m stmt is
def Stmt.isSpanned (m : Module) : Stmt → Bool
  | .absent _ => true
  | .node info target value body orElse =>
    !info.span.isZero &&
      (if info.kind = .letVar ∨ info.kind = .forLoop then m.isInside info.span info.binding
        else true) &&
      target.isSpanned m info.span && value.isSpanned m info.span && Stmt.areSpanned m body &&
      orElse.isSpanned m
def Stmt.areSpanned (m : Module) : List Stmt → Bool
  | [] => true
  | s :: ss => s.isSpanned m && Stmt.areSpanned m ss
end

def FuncDecl.isSpanned (m : Module) (f : FuncDecl) : Bool :=
  !f.span.isZero && m.isInside f.span f.receiver && f.params.all (m.isInside f.span) &&
    Stmt.areSpanned m f.body

def StructDecl.isSpanned (s : StructDecl) : Bool :=
  !s.span.isZero && s.fields.all fun f => s.span.contains f.span

/-- Statements and declarations have spans. Expressions, fields of struct literals and parameters of
closures lie in the innermost statement around them, names that a statement declares in the
statement, receivers and parameters in the function, and fields in the struct. -/
def Module.isSpanned (m : Module) : Bool :=
  m.structs.all StructDecl.isSpanned && m.funcs.all (FuncDecl.isSpanned m)

section Owned

variable {owner : Option Range} {r : Range} {ds : List Doc}

theorem owned_cat (h : ∀ d ∈ ds, Owned owner d) : Owned owner (.cat ds) := by
  induction ds with
  | nil => exact .nil
  | cons d ds ih =>
    rw [List.forall_mem_cons] at h
    exact .cons h.1 (ih h.2)

theorem owned_mapped {origin : Range} (known : r.isZero = false) (inside : r.contains origin = true)
    (h : ∀ d ∈ ds, Owned (some r) d) : Owned (some r) (Doc.mapped origin r ds) :=
  @Owned.mark ⟨origin, r, false⟩ _ ⟨known, fun _ => inside⟩ (owned_cat h)

theorem owned_passage (passage : Passage r (Doc.mapped r r ds)) (known : r.isZero = false)
    (h : ∀ d ∈ ds, Owned (some r) d) : Owned owner (Doc.mapped r r ds) :=
  .passage passage known (owned_cat h)

theorem owned_closed (known : r.isZero = false) : Doc.Closed (Owned (some r)) r where
  text := .text
  cat _ := owned_cat
  synthetic s origin := @Owned.mark ⟨origin, r, true⟩ _ ⟨known, nofun⟩ (.text s)

end Owned

section Spanned

variable {m : Module} {stmt : Range}

theorem Expr.areSpanned_iff {es : List Expr} :
    Expr.areSpanned m stmt es = true ↔ ∀ e ∈ es, e.isSpanned m stmt = true := by
  induction es <;> simp_all [Expr.areSpanned]

theorem FieldInit.areSpanned_iff {is : List FieldInit} : FieldInit.areSpanned m stmt is = true ↔
    ∀ i ∈ is, stmt.contains i.span = true ∧ i.value.isSpanned m stmt = true := by
  induction is with
  | nil => simp [FieldInit.areSpanned]
  | cons i is ih =>
    cases i
    simp [FieldInit.areSpanned, ih, FieldInit.span, FieldInit.value]

theorem Stmt.areSpanned_iff {ss : List Stmt} :
    Stmt.areSpanned m ss = true ↔ ∀ s ∈ ss, s.isSpanned m = true := by
  induction ss <;> simp_all [Stmt.areSpanned]

end Spanned

def Writing.IsSpanned (m : Module) : Writing → Prop
  | .expr _ r e _ => r.isZero = false ∧ e.isSpanned m r = true
  | .stmt _ s => s.isSpanned m = true

theorem spanned_labels {m : Module} {w : Writing} (spanned : w.IsSpanned m) :
    ∀ origin ∈ w.node.labels m, w.owner.contains origin = true := by
  intro origin member
  have declared {b : Nat} (inside : m.isInside w.owner b = true)
      (known : (m.binding? b).map (·.span) = some origin) : w.owner.contains origin = true := by
    obtain ⟨binding, found, rfl⟩ := Option.map_eq_some_iff.mp known
    simpa [Module.isInside, found] using inside
  rcases w with ⟨_, _, _ | info, _⟩ | ⟨_, _ | info⟩
  · cases member
  · simp only [Writing.IsSpanned, Expr.isSpanned, Bool.and_eq_true, FieldInit.areSpanned_iff] at spanned
    obtain ⟨-, ⟨⟨⟨⟨⟨⟨-, params⟩, -⟩, -⟩, -⟩, inits⟩, -⟩, -⟩ := spanned
    rw [Writing.node, Node.labels] at member
    cases kind : info.kind with
    | structLit =>
      rw [kind] at member
      obtain ⟨⟨name, span, value⟩, here, rfl⟩ := List.mem_map.mp member
      exact (inits _ here).1
    | closure =>
      rw [kind] at member
      obtain ⟨b, here, known⟩ := List.mem_filterMap.mp member
      rw [if_pos kind, List.all_eq_true] at params
      exact declared (params b here) known
    | _ => rw [kind] at member; cases member
  · cases member
  · simp only [Writing.IsSpanned, Stmt.isSpanned, Bool.and_eq_true] at spanned
    obtain ⟨⟨⟨⟨⟨-, named⟩, -⟩, -⟩, -⟩, -⟩ := spanned
    rw [Writing.node, Node.labels] at member
    cases kind : info.kind with
    | letVar | forLoop =>
      rw [kind] at member
      rw [if_pos (by simp [kind])] at named
      exact declared named (Option.mem_toList.mp member)
    | _ => rw [kind] at member; cases member

theorem spanned_owned (g : Rendering) :
    Upholds g (fun r => Owned (some r)) (Writing.IsSpanned g.module) where
  text _ := .text
  part {w p} good part := by
    cases part <;>
      simp only [Writing.IsSpanned, Expr.isSpanned, Stmt.isSpanned, Bool.and_eq_true, Bool.not_eq_true',
        Expr.areSpanned_iff, FieldInit.areSpanned_iff, Stmt.areSpanned_iff] at good ⊢ <;>
      grind
  keeps {w} good there := by
    have inside := spanned_labels good
    rcases w with ⟨depth, stmt, _ | ⟨info, x, y, args, inits, body, result⟩, place⟩ |
      ⟨depth, _ | ⟨info, target, value, body, orElse⟩⟩
    · cases there
    · obtain ⟨known, spanned⟩ := good
      simp only [Expr.isSpanned, Bool.and_eq_true] at spanned
      have closed := owned_closed known
      refine ⟨closed, fun origin label content => owned_mapped known (inside origin label),
        Writing.adapts _ closed .fault, ?_⟩
      rintro content doc kept _ rfl
      rw [doc]
      exact owned_mapped known (by simp_all [Writing.span, Writing.node]) kept
    · cases there
    · have passage := Passage.stmt g depth info target value body orElse
      simp only [Writing.IsSpanned, Stmt.isSpanned, Bool.and_eq_true, Bool.not_eq_true'] at good
      have known : info.span.isZero = false := by simp_all
      have closed := owned_closed known
      refine ⟨closed, fun origin label content => owned_mapped known (inside origin label),
        Writing.adapts _ closed .fault, ?_⟩
      intro content doc kept r _
      rw [doc]
      exact owned_passage (doc ▸ passage) known kept

theorem lines_owned {g : Rendering} {depth : Nat} {r : Range} {ss : List Stmt}
    (spanned : Stmt.areSpanned g.module ss = true) :
    ∀ d ∈ Stmt.renderLines g depth ss, Owned (some r) d :=
  (spanned_owned g).lines fun s member => Stmt.areSpanned_iff.mp spanned s member

theorem func_owned {g : Rendering} {depth : Nat} {owner : Option Range} {f : FuncDecl}
    (h : f.isSpanned g.module = true) : Owned owner (f.declaration g depth) := by
  simp only [FuncDecl.isSpanned, Bool.and_eq_true, Bool.not_eq_true', List.all_eq_true] at h
  obtain ⟨⟨⟨known, receiver⟩, params⟩, body⟩ := h
  have inside {b : Nat} (input : b = f.receiver ∨ b ∈ f.params) : g.module.isInside f.span b = true := by
    rcases input with rfl | member
    · exact receiver
    · exact params b member
  obtain ⟨content, doc, kept⟩ := (owned_closed known).funcContent g .fault
    (fun b binding input found content => owned_mapped known
      (by simpa [Module.isInside, found] using inside input)) (lines_owned body)
  rw [doc]
  exact owned_passage (doc ▸ .func f g depth) known kept

theorem struct_owned {owner : Option Range} {s : StructDecl} (h : s.isSpanned = true) :
    Owned owner s.declaration := by
  simp only [StructDecl.isSpanned, Bool.and_eq_true, Bool.not_eq_true', List.all_eq_true] at h
  obtain ⟨known, fields⟩ := h
  obtain ⟨content, doc, kept⟩ := (owned_closed known).structContent
    fun f member content => owned_mapped known (fields f member)
  rw [doc]
  exact owned_passage (doc ▸ .struct s) known kept

def Piece.IsOf (m : Module) : Piece → Prop
  | .struct s => s ∈ m.structs
  | .func f _ => f ∈ m.funcs
  | .text _ => True

theorem layout_of (m : Module) : ∀ p ∈ m.layout, p.IsOf m := by
  intro p placed
  cases p with
  | struct s => exact Layout.struct_placed.mp placed
  | func f depth => exact (List.mem_filter.mp (Layout.func_placed.mp ⟨depth, placed⟩)).1
  | text s => trivial

theorem whole_owned {a : Analysis} (spanned : a.module.isSpanned = true) :
    Owned none (Backend.whole a) := by
  simp only [Module.isSpanned, Bool.and_eq_true, List.all_eq_true] at spanned
  exact whole_kept .text (fun _ => owned_cat)
    (fun s placed => struct_owned (spanned.1 s (layout_of a.module _ placed)))
    fun f depth placed => func_owned (spanned.2 f (layout_of a.module _ placed))

end Tenure
