import Tenure.Proofs.Headers

/- Where the bindings of a function are introduced in its text: as receiver or parameter in the head, and
   by `let`, by loops and by closures in the body. Each stands there with its name, and with what is
   written around the name. -/
namespace Tenure

open Backend (whole)

structure Phrase where
  before : String
  word : String
  behind : String

def Phrase.text (p : Phrase) : String := p.before ++ p.word ++ p.behind

namespace Doc

def Reads (d : Doc) (part : String) : Prop := ∃ front back, d.flat = front ++ part ++ back

theorem Reads.within {d e : Doc} {part : String} (reads : e.Reads part) (shown : d.Shows e) :
    d.Reads part := by
  obtain ⟨front, back, text⟩ := reads
  obtain ⟨o, inside⟩ := shown
  obtain ⟨before, behind, whole, -⟩ := inside.text_split
  refine ⟨before ++ front, back ++ behind, ?_⟩
  rw [whole, text]
  simp only [String.append_assoc]

theorem mapped_reads (origin stmt : Range) (front mid back : List Doc) :
    (mapped origin stmt (front ++ mid ++ back)).Reads (Doc.cat mid).flat :=
  ⟨_, _, by rw [mapped, flat_marked, flat_cat_append, flat_cat_append]⟩

end Doc

/-- What of the writing of an introduction makes the binding mutable: in front of the name, with a
reference, or behind the iterable. -/
structure Wording where
  mark : String := ""
  ref : String := ""
  adaptor : String := ""

def Wording.isMutable (w : Wording) : Bool :=
  w.mark == "mut " || w.ref == "&mut " || w.adaptor == ".iter_mut()"

inductive Introduction where
  | receiver (b : Nat)
  | param (b : Nat)
  | letVar (s : Stmt) (info : StmtInfo)
  | loop (s : Stmt) (info : StmtInfo) (iter : Expr)
  | closureParam (e : Expr) (info : ExprInfo) (b : Nat)

def Node.introductions : Node → List Introduction
  | .stmt (.node info target value body orElse) => match info.kind with
    | .letVar => [.letVar (.node info target value body orElse) info]
    | .forLoop => [.loop (.node info target value body orElse) info value]
    | _ => []
  | .expr (.node info x y args inits body result) =>
    if info.kind = .closure then
      info.params.map (.closureParam (.node info x y args inits body result) info)
    else []
  | _ => []

namespace FuncDecl

def heads (f : FuncDecl) : List Introduction :=
  (if f.receiver = 0 then [] else [.receiver f.receiver]) ++ f.params.map .param

def introducedAt (f : FuncDecl) (ns : List Node) : List Introduction :=
  f.heads ++ ns.flatMap Node.introductions

def introductions (f : FuncDecl) : List Introduction := f.introducedAt f.written

end FuncDecl

namespace Introduction

def binding : Introduction → Nat
  | .receiver b => b
  | .param b => b
  | .letVar _ info => info.binding
  | .loop _ info _ => info.binding
  | .closureParam _ _ b => b

def wording (g : Rendering) : Introduction → Wording
  | .receiver b => { mark := if g.needsMut b then "mut " else "", ref := FuncDecl.refMark (g.ref b) }
  | .param b => { mark := if g.needsMut b then "mut " else "", ref := FuncDecl.refMark (g.ref b) }
  | .letVar _ info => { mark := if g.needsMut info.binding then "mut " else "" }
  | .loop _ info _ =>
    { mark := if g.needsMut info.binding then "mut " else ""
      adaptor := (g.verdict.adaptor info.id).suffixText }
  | .closureParam .. => {}

def Writes (f : FuncDecl) (g : Rendering) (i : Introduction) (d : Doc) (p : Phrase) : Prop :=
  match i with
  | .receiver _ => d = f.receiverDoc g ∧ p = ⟨(i.wording g).ref ++ (i.wording g).mark, "self", ""⟩
  | .param b => d = f.paramDoc g b ∧ ∃ bd, g.module.binding? b = some bd ∧
      p = ⟨(i.wording g).mark, Backend.identifier bd.name, ": " ++ (i.wording g).ref ++ bd.ty.backend⟩
  | .letVar s info => (∃ depth, d = s.render g depth) ∧
      p = ⟨"let " ++ (i.wording g).mark, g.bindingName info.binding, ""⟩
  | .loop s info iter => ∃ depth, d = s.render g depth ∧
      p = ⟨"for " ++ (i.wording g).mark, g.bindingName info.binding,
        " in " ++ (iter.render g depth info.span .plain).flat ++ (i.wording g).adaptor⟩
  | .closureParam e info b => (∃ depth stmt place, d = e.render g depth stmt place) ∧
      ∃ earlier later, info.params = earlier ++ b :: later ∧
        p = ⟨"|" ++ String.join (earlier.map (g.bindingName · ++ ", ")), g.bindingName b,
          String.join (later.map (", " ++ g.bindingName ·)) ++ "| "⟩

end Introduction

section Binds

def Node.introduced (ns : List Node) : List Nat :=
  bindingsOf ((ns.flatMap Node.introductions).map Introduction.binding)

@[simp] theorem introduced_nil : Node.introduced [] = [] := rfl

@[simp] theorem introduced_append (ns ms : List Node) :
    Node.introduced (ns ++ ms) = Node.introduced ns ++ Node.introduced ms := by
  simp [Node.introduced, bindingsOf]

theorem introduced_cons (n : Node) (ns : List Node) :
    Node.introduced (n :: ns) = Node.introduced [n] ++ Node.introduced ns :=
  introduced_append [n] ns

theorem introduced_expr (info : ExprInfo) (x y : Expr) (args : List Expr) (inits : List FieldInit)
    (body : Stmt) (result : Expr) :
    Node.introduced [.expr (.node info x y args inits body result)] =
      if info.kind = .closure then bindingsOf info.params else [] := by
  simp only [Node.introduced, List.flatMap_singleton, Node.introductions]
  split
  · rw [List.map_map]
    exact congrArg bindingsOf (List.map_id _)
  · rfl

theorem introduced_stmt (info : StmtInfo) (target value : Expr) (body : List Stmt) (orElse : Stmt) :
    Node.introduced [.stmt (.node info target value body orElse)] =
      if info.kind = .letVar ∨ info.kind = .forLoop then bindingsOf [info.binding] else [] := by
  simp only [Node.introduced, List.flatMap_singleton, Node.introductions]
  cases info.kind <;> rfl

theorem Course.introduces {o : Outlook} {w : Nat} {vs : List Node} {ns : List Nat}
    {os : List (Nat × Nat)} {as bs : List Act} (h : Course Eq o o w vs ns os as bs) :
    (Node.introduced vs).Perm ns := by
  induction h with
  | nil => exact .refl _
  | append _ _ first second =>
    rw [introduced_append]
    exact first.append second
  | use kind =>
    rw [introduced_expr, if_neg (by rcases kind with kind | kind <;> simp [kind])]
  | expr plain => rw [introduced_expr, if_neg fun closure => plain (.inr (.inr closure))]
  | stmt plain => rw [introduced_stmt, if_neg plain]
  | closure kind _ _ inner =>
    rw [introduced_cons, introduced_expr, if_pos kind]
    exact inner.append_left _
  | named kind _ inner =>
    rw [introduced_cons, introduced_stmt, if_pos (.inl kind)]
    exact List.perm_append_comm.trans ((@inner .read _ rfl).append_right _)
  | loop _ inner => exact inner
  | each kind _ _ source inner =>
    rw [introduced_append, introduced_cons, introduced_stmt, if_pos (.inr kind)]
    exact source.append (inner.append_left _)

namespace FuncDecl

variable {f : FuncDecl}

theorem introduced_binds (f : FuncDecl) :
    (bindingsOf ((f.introducedAt f.visits).map Introduction.binding)).Perm f.binds := by
  have heads : bindingsOf (f.heads.map Introduction.binding) = f.inputs := by
    have params : (f.params.map Introduction.param).map Introduction.binding = f.params := by
      rw [List.map_map]
      exact List.map_id _
    rw [FuncDecl.heads, List.map_append, params, inputs]
    by_cases none : f.receiver = 0
    · simp [none, bindingsOf]
    · simp [none, bindingsOf, Introduction.binding]
  rw [introducedAt, List.map_append, bindingsOf_append, heads, binds]
  exact (@stmts_course Eq _ _ (Outlook.agree_self { table := [] }) f.body 0).introduces.append_left _

theorem introduction_unique (once : f.binds.Nodup) {i j : Introduction}
    (first : i ∈ f.introducedAt f.visits) (second : j ∈ f.introducedAt f.visits)
    (same : i.binding = j.binding) (counts : j.binding ≠ 0) : i = j := by
  have distinct := f.introduced_binds.nodup_iff.mpr once
  rw [bindingsOf, List.filter_map] at distinct
  have listed : ∀ {k}, k ∈ f.introducedAt f.visits → k.binding = j.binding →
      k ∈ (f.introducedAt f.visits).filter ((fun b => decide (b ≠ 0)) ∘ Introduction.binding) := by
    intro k there own
    exact List.mem_filter.mpr ⟨there, by simpa [own] using counts⟩
  exact List.inj_on_of_nodup_map distinct (listed first same) (listed second rfl) same

theorem introduction_of_binds {b : Nat} (declared : b ∈ f.binds) :
    ∃ i ∈ f.introducedAt f.visits, i.binding = b := by
  have there := f.introduced_binds.mem_iff.mpr declared
  exact List.mem_map.mp (List.mem_filter.mp there).1

theorem introducedAt_mono {ns ms : List Node} (sub : ns ⊆ ms) :
    f.introducedAt ns ⊆ f.introducedAt ms := by
  refine List.append_subset.mpr ⟨List.subset_append_left _ _, List.subset_append_of_subset_right _ ?_⟩
  intro i member
  obtain ⟨n, there, own⟩ := List.mem_flatMap.mp member
  exact List.mem_flatMap.mpr ⟨n, sub there, own⟩

end FuncDecl

end Binds

section Text

variable {f : FuncDecl} {g : Rendering}

variable {bd : Binding}

theorem receiverDoc_text (known : g.module.binding? f.receiver = some bd) :
    (f.receiverDoc g).flat = FuncDecl.refMark (g.ref f.receiver) ++
      (if g.needsMut f.receiver then "mut " else "") ++ "self" := by
  cases ref : g.ref f.receiver <;>
    simp [FuncDecl.receiverDoc, known, ref, Doc.mapped, Rendering.mutMark, Doc.when_,
      FuncDecl.refMark, Rendering.needsMut]

theorem letName_text (b : Nat) (stmt : Range) : ∃ ty, (letName g b stmt).flat = g.bindingName b ++ ty := by
  unfold letName
  cases known : g.module.binding? b with
  | none => exact ⟨"", by simp [Rendering.bindingName, known]⟩
  | some bd => exact ⟨_, by simp only [Doc.mapped, Doc.flat_marked, Doc.flat_cat_cons, Doc.flat_text,
      Doc.flat_cat_nil, String.append_empty]; rfl⟩

theorem closureParam_text (b : Nat) (stmt : Range) :
    (closureParam g stmt b).flat = g.bindingName b := by
  unfold closureParam
  cases known : g.module.binding? b with
  | none => simp [Rendering.bindingName, known]
  | some bd => simp [Doc.mapped]

theorem loopName_text {b : Nat} (known : g.module.binding? b = some bd) (stmt : Range) :
    (loopName g b stmt).flat = g.bindingName b := by
  simp [loopName, known, Doc.mapped]

theorem adaptorDoc_text {info : StmtInfo} {iter : Expr} (sound : (adaptorDoc g info iter).isSound = true) :
    (adaptorDoc g info iter).flat = (g.verdict.adaptor info.id).suffixText := by
  unfold adaptorDoc at sound ⊢
  dsimp only at sound ⊢
  split
  · rename_i none
    rw [String.isEmpty_iff.mp none]
    rfl
  · rename_i some
    rw [if_neg some] at sound
    cases known : iter.info? with
    | none =>
      rw [known] at sound
      cases sound
    | some i => simp [Doc.synthetic]

theorem letVar_reads {info : StmtInfo} (kind : info.kind = .letVar) (target value : Expr)
    (body : List Stmt) (orElse : Stmt) (depth : Nat) :
    ((Stmt.node info target value body orElse).render g depth).Reads
      ("let " ++ (if g.needsMut info.binding then "mut " else "") ++ g.bindingName info.binding) := by
  obtain ⟨ty, named⟩ := letName_text (g := g) info.binding info.span
  rw [Stmt.render]
  simp only [Rendering.stmtContent, kind, Doc.mapped, Doc.flat_marked, List.cons_append,
    Doc.flat_cat_cons, Doc.flat_text, named, Rendering.mutMark, Doc.when_, Doc.Reads]
  exact ⟨"", _, by simp only [String.empty_append, String.append_assoc]; rfl⟩

theorem loop_reads {info : StmtInfo} (kind : info.kind = .forLoop)
    (known : g.module.binding? info.binding = some bd) (target value : Expr) (body : List Stmt)
    (orElse : Stmt) (sound : (adaptorDoc g info value).isSound = true) (depth : Nat) :
    ((Stmt.node info target value body orElse).render g depth).Reads
      ("for " ++ (if g.needsMut info.binding then "mut " else "") ++ g.bindingName info.binding ++
        (" in " ++ (value.render g depth info.span .plain).flat ++
          (g.verdict.adaptor info.id).suffixText)) := by
  have place : info.valuePlace target = .plain := by simp [StmtInfo.valuePlace, kind]
  rw [Stmt.render]
  simp only [Rendering.stmtContent, kind, Doc.mapped, Doc.flat_marked, place, Doc.flat_cat_cons,
    Doc.flat_text, loopName_text known, adaptorDoc_text sound, Rendering.mutMark, Doc.when_, Doc.Reads]
  exact ⟨"", _, by simp only [String.empty_append, String.append_assoc]; rfl⟩

theorem intercalate_split (s : String) (xs : List String) (x : String) (ys : List String) :
    s.intercalate (xs ++ x :: ys) =
      String.join (xs.map (· ++ s)) ++ x ++ String.join (ys.map (s ++ ·)) := by
  have first : ∀ (ys : List String) (x : String),
      s.intercalate (x :: ys) = x ++ String.join (ys.map (s ++ ·)) := by
    intro ys
    induction ys with
    | nil => simp
    | cons y ys ih =>
      intro x
      rw [String.intercalate_cons_cons, ih, List.map_cons, String.join_cons]
      simp only [String.append_assoc]
  induction xs with
  | nil => simpa using first ys x
  | cons z zs ih =>
    rw [List.cons_append, String.intercalate_cons_of_ne_nil (by simp), ih, List.map_cons,
      String.join_cons]
    simp only [String.append_assoc]

theorem closure_reads {info : ExprInfo} (kind : info.kind = .closure) (x y : Expr) (args : List Expr)
    (inits : List FieldInit) (body : Stmt) (result : Expr) (depth : Nat) (stmt : Range) (place : Place) :
    ((Expr.node info x y args inits body result).render g depth stmt place).Reads
      ("|" ++ ", ".intercalate (info.params.map g.bindingName) ++ "| ") := by
  have names : (info.params.map (closureParam g stmt)).map Doc.flat =
      info.params.map g.bindingName := by
    rw [List.map_map]
    exact List.map_congr_left fun b _ => closureParam_text b stmt
  have bars : (Doc.cat (.text "|" :: Doc.joined ", " (info.params.map (closureParam g stmt)) ++
      [.text "| "])).flat = "|" ++ ", ".intercalate (info.params.map g.bindingName) ++ "| " := by
    rw [List.cons_append, Doc.flat_cat_cons, Doc.flat_cat_append, joined_flat, names]
    simp [String.append_assoc]
  rw [Expr.render, ← bars]
  simp only [Rendering.exprContent, kind, Rendering.closureContent, List.cons_append, List.append_assoc]
  -- What stands before the bars, and what stands behind them.
  have parts := fun (a b move : Doc) (copies : List Doc) (body c d : Doc) =>
    Doc.mapped_reads info.span stmt (a :: b :: copies ++ [move])
      (.text "|" :: Doc.joined ", " (info.params.map (closureParam g stmt)) ++ [.text "| "]) [body, c, d]
  simp only [List.cons_append, List.append_assoc, List.nil_append] at parts
  exact parts _ _ _ _ _ _ _

end Text

section Reading

variable {a : Analysis} {f : FuncDecl} {i : Introduction} {bd : Binding}

def Introduction.ReadIn (a : Analysis) (f : FuncDecl) (i : Introduction) (p : Phrase) : Prop :=
  ∃ d, (whole a).Shows d ∧ i.Writes f (Rendering.of a f) d p ∧ d.Reads p.text

theorem prints_of_reads {file : String} {u : Generated} (made : a.generate file = some u) {d : Doc}
    (shown : (whole a).Shows d) {part : String} (reads : d.Reads part) : u.Prints part := by
  obtain ⟨front, back, text⟩ := reads
  obtain ⟨before, behind, printed⟩ := prints_of_shows made shown
  refine ⟨before ++ front, back ++ behind, ?_⟩
  rw [printed, text]
  simp only [String.append_assoc]

theorem head_reads (there : f ∈ Layout.written a.module) (member : i ∈ f.heads)
    (known : a.module.binding? i.binding = some bd) : ∃ p, i.ReadIn a f p := by
  obtain ⟨depth, declared⟩ := declaration_shown there
  have input : ∀ d ∈ (if f.receiver = 0 then [] else [f.receiverDoc (Rendering.of a f)]) ++
      f.params.map (f.paramDoc (Rendering.of a f)), (whole a).Shows d := by
    intro d given
    refine declared.trans (Doc.Among.of_mem ?_).mapped
    simp [Doc.subset_joined ", " _ given]
  rcases List.mem_append.mp member with receiver | param
  · by_cases none : f.receiver = 0
    · rw [if_pos none] at receiver
      cases receiver
    · rw [if_neg none, List.mem_singleton] at receiver
      subst receiver
      refine ⟨_, _, input _ (by simp [none]), ⟨rfl, rfl⟩, "", "", ?_⟩
      rw [receiverDoc_text known]
      simp [Phrase.text, Introduction.wording]
  · obtain ⟨b, listed, rfl⟩ := List.mem_map.mp param
    refine ⟨_, _, input _ (List.mem_append_right _ (List.mem_map_of_mem listed)),
      ⟨rfl, bd, known, rfl⟩, "", "", ?_⟩
    rw [paramDoc_text known]
    simp [Phrase.text, Introduction.wording, String.append_assoc]

theorem written_reads (there : f ∈ Layout.written a.module) (sound : (whole a).isSound = true)
    {n : Node} (written : n ∈ f.written) (member : i ∈ n.introductions)
    (known : a.module.binding? i.binding = some bd) : ∃ p, i.ReadIn a f p := by
  have shown := func_written_shown there written
  have writable := (whole_sound_iff.mp sound f there).body n written
  cases n with
  | stmt s =>
    cases s with
    | absent => cases member
    | node info target value body orElse =>
      obtain ⟨depth, shown⟩ := shown
      rw [Node.introductions] at member
      split at member
      · rename_i kind
        rw [List.mem_singleton] at member
        subst member
        refine ⟨_, _, shown, ⟨⟨depth, rfl⟩, rfl⟩, ?_⟩
        simpa [Phrase.text, Introduction.wording] using letVar_reads kind target value body orElse depth
      · rename_i kind
        rw [List.mem_singleton] at member
        subst member
        refine ⟨_, _, shown, ⟨depth, rfl, rfl⟩, ?_⟩
        exact loop_reads kind known target value body orElse (writable kind) depth
      · cases member
  | expr e =>
    cases e with
    | absent => cases member
    | node info x y args inits body result =>
      obtain ⟨depth, stmt, place, shown⟩ := shown
      rw [Node.introductions] at member
      split at member
      · rename_i kind
        obtain ⟨b, listed, rfl⟩ := List.mem_map.mp member
        obtain ⟨earlier, later, split⟩ := List.append_of_mem listed
        refine ⟨_, _, shown, ⟨⟨depth, stmt, place, rfl⟩, earlier, later, split, rfl⟩, ?_⟩
        have bars := closure_reads (g := Rendering.of a f) kind x y args inits body result depth stmt place
        rw [split, List.map_append, List.map_cons, intercalate_split, List.map_map, List.map_map] at bars
        simpa only [Phrase.text, String.append_assoc, Function.comp_def] using bars
      · cases member

theorem introduction_reads (there : f ∈ Layout.written a.module) (sound : (whole a).isSound = true)
    (member : i ∈ f.introductions) (known : a.module.binding? i.binding = some bd) :
    ∃ p, i.ReadIn a f p := by
  rcases List.mem_append.mp member with head | body
  · exact head_reads there head known
  · obtain ⟨n, written, introduced⟩ := List.mem_flatMap.mp body
    exact written_reads there sound written introduced known

end Reading

end Tenure
