import Tenure.Proofs.Clones
import Tenure.Proofs.Roles

/- Declarations and calls. The signature table decides how a parameter is declared and how a call passes
   the argument in its place. A declaration goes by the table only where the binding is a parameter by
   its own kind; a call always does. -/
namespace Tenure

open Backend (whole)

namespace Signature

def Uniform (s : Signature) (f : FuncDecl) : Prop := ∃ M : Nat → Mode, s.params = f.params.map M

theorem Uniform.seed (m : Module) (f : FuncDecl) : (Signatures.seedOf m f).Uniform f :=
  ⟨fun p => Signatures.seedMode f.isExtern (m.binding? p), rfl⟩

variable {s : Signature} {f : FuncDecl}

theorem Uniform.param {M : Nat → Mode} (h : s.params = f.params.map M)
    {i : Nat} (bound : i < f.params.length) : s.param i = M f.params[i] := by
  rw [Signature.param, h, List.getD_eq_getElem?_getD, List.getElem?_map,
    List.getElem?_eq_getElem bound]
  rfl

theorem Uniform.refined {m : Module} (h : s.Uniform f)
    (table : Signatures) : (Signatures.refined s (f.analyze m table)).Uniform f := by
  obtain ⟨M, params⟩ := h
  refine ⟨fun p => (M p).join ((f.analyze m table).verdict.mode p), ?_⟩
  apply List.ext_getElem
  · simp [Signatures.refined]
  · intro i bound _
    have inside : i < f.params.length := by simpa [Signatures.refined] using bound
    simp only [Signatures.refined, List.getElem_mapIdx, List.getElem_map, analyze_func,
      Uniform.param params inside]

end Signature

namespace Standing

variable {m : Module} {P : FuncDecl × Signature → Prop} {s : Standing} {f : FuncDecl}

theorem last_kept (distinct : (m.funcs.map (·.qualified)).Nodup)
    (start : ∀ f, P (f, Signatures.seedOf m f)) (kept : ∀ T e, P e → P (step m T e)) (limit : Int) :
    ∃ t : Standing, t.map (·.1) = m.funcs ∧ (∀ e ∈ t, P e) ∧
      (Analysis.of m limit).last = Round.run m t.table := by
  let Q (T : Signatures) := ∃ t : Standing, t.table = T ∧ t.map (·.1) = m.funcs ∧ ∀ e ∈ t, P e
  have first : Q (Signatures.seed m) :=
    ⟨seed m, (seed_table distinct).symm, seed_fst m, List.forall_mem_map.mpr fun f _ => start f⟩
  have next : ∀ T, Q T → Q (Round.run m T).next.1 := by
    rintro _ ⟨t, rfl, all, good⟩
    refine ⟨t.next m, by rw [run_next distinct all], (next_fst m t).trans all, ?_⟩
    exact List.forall_mem_map.mpr fun e member => kept _ _ (good e member)
  obtain ⟨_, ⟨t, rfl, all, good⟩, final⟩ := analysis_last first next limit
  exact ⟨t, all, good, final⟩

theorem lookup_of_mem {t : Standing} {s : Signature} (distinct : t.names.Nodup)
    (member : (f, s) ∈ t) : t.table.lookup f.qualified = some s := by
  obtain ⟨done, rest, rfl⟩ := List.append_of_mem member
  apply lookup_table
  intro before
  rw [names, List.map_append, List.nodup_append] at distinct
  exact distinct.2.2 _ before _ (by simp) rfl

theorem names_nodup (distinct : (m.funcs.map (·.qualified)).Nodup)
    (all : s.map (·.1) = m.funcs) : s.names.Nodup := by
  rw [← all, List.map_map] at distinct
  exact distinct

theorem signature_kept
    (distinct : (m.funcs.map (·.qualified)).Nodup) (start : ∀ f, P (f, Signatures.seedOf m f))
    (kept : ∀ T e, P e → P (step m T e)) (limit : Int) (there : f ∈ m.funcs) :
    ∃ sig, (Analysis.of m limit).table.lookup f.qualified = some sig ∧ P (f, sig) := by
  obtain ⟨t, all, good, final⟩ := last_kept distinct start kept limit
  rw [← all] at there
  obtain ⟨⟨f, sig⟩, member, rfl⟩ := List.mem_map.mp there
  refine ⟨sig, ?_, good _ member⟩
  rw [Analysis.table, final]
  exact lookup_of_mem (names_nodup distinct all) member

end Standing

theorem signature_of {m : Module} (distinct : (m.funcs.map (·.qualified)).Nodup) (limit : Int)
    {f : FuncDecl} (there : f ∈ m.funcs) :
    ∃ sig, (Analysis.of m limit).table.lookup f.qualified = some sig ∧ sig.Fits f ∧ sig.Uniform f := by
  have kept : ∀ T e, e.2.Fits e.1 ∧ e.2.Uniform e.1 →
      (Standing.step m T e).2.Fits (Standing.step m T e).1 ∧
        (Standing.step m T e).2.Uniform (Standing.step m T e).1 := by
    rintro T e ⟨fits, uniform⟩
    refine ⟨Standing.step_fits fits, ?_⟩
    unfold Standing.step
    split
    · exact uniform
    · exact uniform.refined T
  exact Standing.signature_kept distinct (fun f => ⟨.seed m f, .seed m f⟩) kept limit there

section Declared

theorem lookup_of_graph {α : Type} {kvs : List (Nat × α)} {M : Nat → α}
    (graph : ∀ e ∈ kvs, e.2 = M e.1) {k : Nat} (listed : k ∈ kvs.map (·.1)) :
    kvs.lookup k = some (M k) := by
  induction kvs with
  | nil => cases listed
  | cons e kvs ih =>
    obtain ⟨first, rest⟩ := List.forall_mem_cons.mp graph
    rw [List.lookup_cons]
    by_cases same : k = e.1
    · rw [same, beq_self_eq_true, ← first]
    · rw [beq_eq_false_iff_ne.mpr same]
      exact ih rest ((List.mem_cons.mp listed).resolve_left same)

variable {f : FuncDecl} {g : Rendering} {sig : Signature}

theorem header_param (header : g.header = Rendering.headerOf f (some sig)) (uniform : sig.Uniform f)
    {i : Nat} (bound : i < f.params.length) : g.mode f.params[i] = sig.param i := by
  obtain ⟨M, params⟩ := uniform
  have pairs : (f.params.mapIdx fun i p => (p, sig.param i)) = f.params.map fun p => (p, M p) := by
    apply List.ext_getElem
    · simp
    · intro j inside _
      have within : j < f.params.length := by simpa using inside
      simp only [List.getElem_mapIdx, List.getElem_map, Signature.Uniform.param params within]
  have found : g.header.lookup f.params[i] = some (M f.params[i]) := by
    rw [header, Rendering.headerOf, pairs, List.lookup_append]
    have listed : ((f.params.map fun p => (p, M p)).reverse).lookup f.params[i] =
        some (M f.params[i]) := by
      apply lookup_of_graph
      · intro e member
        obtain ⟨p, -, rfl⟩ := List.mem_map.mp (List.mem_reverse.mp member)
        rfl
      · simp
    rw [listed]
    rfl
  rw [Rendering.mode, found, Signature.Uniform.param params bound]
  rfl

def Mode.mark : Mode → String
  | .shared => "&"
  | .exclusive => "&mut "
  | _ => ""

theorem mark_iff {a : Mode} (known : a ≠ .unresolved) :
    (a.mark = "&" ↔ a = .shared) ∧ (a.mark = "&mut " ↔ a = .exclusive) ∧ (a.mark = "" ↔ a = .owned) := by
  cases a with
  | unresolved => exact absurd rfl known
  | shared | exclusive | owned => decide

variable {p : Nat} {b : Binding}

theorem refMark_of_kind (known : g.module.binding? p = some b)
    (kind : b.kind.isParam = true) : FuncDecl.refMark (g.ref p) = (g.mode p).mark := by
  rw [Rendering.ref, known]
  cases which : b.kind with
  | param | receiver => simp only [which]; cases g.mode p <;> rfl
  | local_ | loop | closureParam => rw [which] at kind; cases kind

theorem refMark_other (known : g.module.binding? p = some b)
    (kind : b.kind.isParam = false) (free : b.kind ≠ .loop) : FuncDecl.refMark (g.ref p) = "" := by
  rw [Rendering.ref, known]
  cases which : b.kind with
  | param | receiver => rw [which] at kind; cases kind
  | loop => exact absurd which free
  | local_ | closureParam => simp only [which]; rfl

theorem paramDoc_text (known : g.module.binding? p = some b) :
    (f.paramDoc g p).flat = (if g.needsMut p then "mut " else "") ++
      (Backend.identifier b.name ++ ": ") ++ FuncDecl.refMark (g.ref p) ++ b.ty.backend := by
  simp [FuncDecl.paramDoc, known, Doc.mapped, Rendering.mutMark, Doc.when_, String.append_assoc]

end Declared

def Generated.Prints (u : Generated) (s : String) : Prop := ∃ before behind, u.text = before ++ s ++ behind

theorem prints_of_shows {a : Analysis} {file : String} {u : Generated} (made : a.generate file = some u)
    {d : Doc} (shows_ : (whole a).Shows d) : u.Prints d.flat := by
  obtain ⟨-, text, -⟩ := generate_spec made
  obtain ⟨o, part⟩ := shows_
  obtain ⟨before, behind, split, -⟩ := part.text_split
  exact ⟨before, behind, text.trans split⟩

def FuncDecl.headText (f : FuncDecl) (inputs : List String) : String :=
  "fn " ++ Backend.identifier f.name ++ "(" ++ ", ".intercalate inputs ++ ")"

section HeadText

theorem joined_flat (s : String) (ds : List Doc) :
    (Doc.cat (Doc.joined s ds)).flat = s.intercalate (ds.map Doc.flat) := by
  fun_induction Doc.joined s ds with
  | case1 => simp
  | case2 d => simp
  | case3 d ds more ih =>
    cases ds with
    | nil => exact absurd rfl more
    | cons e es =>
      rw [Doc.flat_cat_cons, Doc.flat_cat_cons, ih, Doc.flat_text]
      simp [String.append_assoc]

theorem declaration_text (f : FuncDecl) (g : Rendering) (depth : Nat) :
    ∃ own behind, own.length ≤ 1 ∧
      (f.declaration g depth).flat =
        f.headText (own ++ f.params.map fun p => (f.paramDoc g p).flat) ++ behind := by
  let behind := Doc.cat [
    .text (if f.result.isUnit then "" else " -> " ++ f.result.backend), .text " ",
    blockDoc depth (Stmt.renderLines g (depth + 1) f.body)]
  refine ⟨(if f.receiver = 0 then [] else [f.receiverDoc g]).map Doc.flat, behind.flat, ?_, ?_⟩
  · split <;> simp
  · rw [FuncDecl.declaration, Doc.mapped, Doc.flat_marked, List.cons_append, Doc.flat_cat_cons,
      Doc.flat_text, Doc.flat_cat_append, joined_flat, Doc.flat_cat_cons, Doc.flat_text,
      List.map_append, List.map_map, FuncDecl.headText]
    simp only [String.append_assoc]
    rfl

end HeadText

def ExprInfo.Calls (info : ExprInfo) (name : String) : Prop :=
  name ≠ "" ∧ (info.kind = .call ∧ info.binding = 0 ∧ info.callee = name ∨
    info.kind = .methodCall ∧ info.target = name)

section Calls

variable {g : Rendering} {info : ExprInfo} {name : String} {sig : Signature}

theorem callPlace (calls : info.Calls name) (found : g.table.lookup name = some sig) (i : Nat) :
    g.argPlace info i = Place.ofMode (sig.param i) := by
  obtain ⟨named, free | method⟩ := calls
  · obtain ⟨kind, unbound, callee⟩ := free
    simp [Rendering.argPlace, kind, unbound, callee, Signatures.get?, named, found]
  · obtain ⟨kind, target⟩ := method
    simp [Rendering.argPlace, kind, target, Signatures.get?, named, found]

theorem argument_shown (calls : info.Calls name) (found : g.table.lookup name = some sig)
    (x y : Expr) {args : List Expr} (inits : List FieldInit) (body : Stmt) (result : Expr)
    {i : Nat} (bound : i < args.length) (depth : Nat) (stmt : Range) (place : Place) :
    (Expr.render g depth stmt (.node info x y args inits body result) place).Shows
      (args[i].render g depth stmt (Place.ofMode (sig.param i))) := by
  have has : info.kind.hasArgs = true := by
    obtain ⟨-, ⟨kind, -⟩ | ⟨kind, -⟩⟩ := calls <;> rw [kind] <;> rfl
  rw [← callPlace calls found]
  exact (Writing.Part.arg has (List.getElem?_eq_getElem bound)).shows_

end Calls

/-- Declarations and calls in a module whose functions have distinct names. The head of a function lists
the texts of its parameters. A parameter by its own kind is declared as its final mode says, in a
function that has a name; other bindings are declared by value, whatever the mode is, unless they are
loop variables. Every call of the function passes what the mode says. -/
theorem declarations_match_calls {m : Module} (distinct : (m.funcs.map (·.qualified)).Nodup)
    {limit : Int} {file : String} {u : Generated} (made : (Analysis.of m limit).generate file = some u)
    {f : FuncDecl} (there : f ∈ Layout.written m) :
    let a := Analysis.of m limit
    let g := Rendering.of a f
    ∃ sig, a.table.lookup f.qualified = some sig ∧
      (∃ own, own.length ≤ 1 ∧
        u.Prints (f.headText (own ++ f.params.map fun p => (f.paramDoc g p).flat))) ∧
      ∀ (i : Nat) (bound : i < f.params.length), ∃ b mark,
        m.binding? f.params[i] = some b ∧
        (f.paramDoc g f.params[i]).flat = (if g.needsMut f.params[i] then "mut " else "") ++
          (Backend.identifier b.name ++ ": ") ++ mark ++ b.ty.backend ∧
        (f.qualified ≠ "" → b.kind.isParam = true →
          (mark = "&" ↔ sig.param i = .shared) ∧ (mark = "&mut " ↔ sig.param i = .exclusive) ∧
            (mark = "" ↔ sig.param i = .owned)) ∧
        (b.kind.isParam = false → b.kind ≠ .loop → mark = "") ∧
        ∀ h ∈ Layout.written m, ∀ info x y args inits body result,
          Node.expr (.node info x y args inits body result) ∈ h.written → info.Calls f.qualified →
            ∀ inside : i < args.length, ∃ depth stmt, u.Prints
              (args[i].render (Rendering.of a h) depth stmt (Place.ofMode (sig.param i))).flat := by
  intro a g
  have sound := (generate_spec made).1
  have renders : f.Renders g := whole_sound_iff.mp sound f there
  obtain ⟨sig, found, fits, uniform⟩ := signature_of distinct limit (List.mem_filter.mp there).1
  refine ⟨sig, found, ?_, ?_⟩
  · obtain ⟨depth, declared⟩ := @declaration_shown a f there
    obtain ⟨own, behind, short, text⟩ := declaration_text f g depth
    obtain ⟨before, rest, printed⟩ := prints_of_shows made declared
    refine ⟨own, short, before, behind ++ rest, ?_⟩
    rw [printed, text]
    simp only [String.append_assoc]
  · intro i bound
    obtain ⟨b, known⟩ := Option.isSome_iff_exists.mp (renders.params _ (List.getElem_mem bound))
    refine ⟨b, FuncDecl.refMark (g.ref f.params[i]), known, paramDoc_text known, ?_,
      refMark_other known, ?_⟩
    · intro named kind
      have header : g.header = Rendering.headerOf f (some sig) := by
        have listed : a.table.get? f.qualified = some sig := by simpa [Signatures.get?, named] using found
        rw [← listed]
        rfl
      rw [refMark_of_kind known kind, header_param header uniform bound]
      exact mark_iff (fits.known _ (fits.param_mem bound))
    · intro h placed info x y args inits body result written calls inside
      obtain ⟨depth, stmt, place, shown⟩ := @func_written_shown a h placed _ written
      exact ⟨depth, stmt, prints_of_shows made
        (shown.trans (argument_shown calls found x y inits body result inside depth stmt place))⟩

namespace Sample

def lending (kind : String) : Document :=
  { file := "src/main.kl", module := "main", source := some ""
    bindings := [{ id := 1, name := "x", kind, ty := "string" }, { id := 2, name := "y", ty := "string" }]
    funcs := [
      { name := "show", params := [1], span := [1, 1, 3, 2]
        body := [.node { kind := "expr", span := [2, 3, 2, 11] } .absent
          (.node { kind := "call", name := "print", span := [2, 3, 2, 11] } .absent .absent
            [nameAt 1 [2, 9, 2, 10]] [] .absent .absent) [] .absent] },
      { name := "main", span := [4, 1, 7, 2]
        body := [
          .node { kind := "let", binding := 2, span := [5, 3, 5, 14] } .absent
            (.node { kind := "lit", lit := "a", litKind := "string", ty := "string", span := [5, 11, 5, 14] }
              .absent .absent [] [] .absent .absent) [] .absent,
          .node { kind := "expr", span := [6, 3, 6, 10] } .absent
            (.node { kind := "call", name := "show", target := "show", span := [6, 3, 6, 10] } .absent
              .absent [nameAt 2 [6, 8, 6, 9]] [] .absent .absent) [] .absent] }] }

theorem lending_accepted : (lending "param").program?.isSome = true ∧
    (lending "").program?.isSome = true := by
  decide +kernel

def lent : Module := (lending "param").program?.get lending_accepted.1

def lentAsLocal : Module := (lending "").program?.get lending_accepted.2

theorem lent_checked :
    (lent.funcs.map (·.qualified)).Nodup ∧ (Analysis.of lent).generate.isSome = true ∧
      (Layout.written lent).head?.map (fun f => (f.qualified, f.params)) = some ("show", [1]) ∧
      ((Analysis.of lent).table.lookup "show").map (·.param 0) = some .shared ∧
      (lent.binding? 1).map (·.kind.isParam) = some true := by
  decide +kernel

end Sample

theorem lent_declared_as_called :
    ∃ u f, ((Sample.lending "param").accept {} fun _ => none).2 = .ok Sample.lent ∧
      (Sample.lent.funcs.map (·.qualified)).Nodup ∧ (Analysis.of Sample.lent).generate = some u ∧
      f ∈ Layout.written Sample.lent ∧ f.params = [1] ∧
      ∃ (b : Binding) (front : String), (f.paramDoc (Rendering.of (Analysis.of Sample.lent) f) 1).flat =
        front ++ (Backend.identifier b.name ++ ": ") ++ "&" ++ b.ty.backend := by
  obtain ⟨distinct, generated, first, mode, kind⟩ := Sample.lent_checked
  obtain ⟨u, made⟩ := Option.isSome_iff_exists.mp generated
  obtain ⟨f, head, shape⟩ := Option.map_eq_some_iff.mp first
  obtain ⟨name, params⟩ := Prod.mk.inj shape
  have there : f ∈ Layout.written Sample.lent := List.mem_of_head? head
  obtain ⟨sig, found, -, each⟩ := declarations_match_calls distinct made there
  have bound : 0 < f.params.length := by
    rw [params]
    decide
  have only : f.params[0] = 1 := by simp [params]
  obtain ⟨b, mark, known, text, forms, -⟩ := each 0 bound
  rw [only] at known text
  rw [name] at found
  rw [found, Option.map_some] at mode
  rw [known, Option.map_some] at kind
  have shared : mark = "&" :=
    (forms (by rw [name]; decide) (Option.some.inj kind)).1.mpr (Option.some.inj mode)
  rw [shared] at text
  exact ⟨u, f, Document.accept_program Sample.lending_accepted.1, distinct, made, there, params, b, _,
    text⟩

/-- The parameter is a local value by its kind. It is declared by value, and passed by reference. -/
theorem parameter_declared_apart :
    ((Sample.lending "").accept {} fun _ => none).2 = .ok Sample.lentAsLocal ∧
      (Sample.lentAsLocal.funcs.map (·.qualified)).Nodup ∧
      (Analysis.of Sample.lentAsLocal).generate.isSome = true ∧
      ((Analysis.of Sample.lentAsLocal).table.lookup "show").map (·.param 0) = some .shared ∧
      (Layout.written Sample.lentAsLocal).map (fun f => f.params.map fun p =>
        (f.paramDoc (Rendering.of (Analysis.of Sample.lentAsLocal) f) p).flat) = [["x: String"], []] := by
  refine ⟨Document.accept_program Sample.lending_accepted.2, ?_⟩
  decide +kernel

end Tenure
