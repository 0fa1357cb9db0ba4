import Tenure.Proofs.Introductions
import Tenure.Proofs.Paths

/- The spelling of names. A name of the source that is a keyword of the backend is written with a mark in
   front. Bindings, fields and methods are written alike where they are declared and where they are
   used; the target of a call is written as it is, so functions whose names are keywords are not. -/
namespace Tenure

open Backend (whole)

inductive Subject where
  | call (callee : String)
  | method (target name : String)
  | binding (b : Nat)
  | field (name : String)
  deriving DecidableEq

def components (name : String) : List String := Text.splitOn "." name

def Subject.word (g : Rendering) : Subject → String
  | .call callee => (components callee).getLast?.getD ""
  | .method _ name => Backend.identifier name
  | .binding b => g.bindingName b
  | .field name => Backend.identifier name

structure Reference where
  subject : Subject
  before : String := ""
  behind : String := ""

def Reference.phrase (g : Rendering) (r : Reference) : Phrase := ⟨r.before, r.subject.word g, r.behind⟩

def Node.references (g : Rendering) : Node → List Reference
  | .expr (.node info _ _ _ inits _ _) => match info.kind with
    | .ident => if info.binding = 0 then [] else [{ subject := .binding info.binding }]
    | .call =>
      if info.binding ≠ 0 then [{ subject := .binding info.binding, behind := "(" }]
      else if (g.table.get? info.callee).isSome then
        [{ subject := .call info.callee, behind := "("
           before := String.join ((components info.callee).dropLast.map (· ++ "::")) }]
      else []
    | .methodCall =>
      if (g.table.get? info.target).isSome then
        [{ subject := .method info.target info.name, before := ".", behind := "(" }]
      else []
    | .field => [{ subject := .field info.name, before := "." }]
    | .structLit => inits.map fun | .mk name _ _ => { subject := .field name, behind := ": " }
    | .closure => (g.verdict.captureClones info.id).map fun b =>
      { subject := .binding b, before := "let " ++ g.bindingName b ++ " = ", behind := ".clone(); " }
    | _ => []
  | _ => []

inductive Declaration where
  | func (h : FuncDecl)
  | field (s : StructDecl) (fd : Field)
  | introduction (i : Introduction)

namespace Declaration

def Of (a : Analysis) (f : FuncDecl) : Declaration → Subject → Prop
  | .func h, .call callee => h ∈ Layout.written a.module ∧ h.qualified = callee
  | .func h, .method target name => h ∈ Layout.written a.module ∧ h.qualified = target ∧
      (components target).getLast? = some name
  | .field s fd, .field name => s ∈ a.module.structs ∧ fd ∈ s.fields ∧ fd.name = name
  | .introduction i, .binding b => i ∈ f.introductions ∧ i.binding = b ∧ (a.module.binding? b).isSome
  | _, _ => False

def Writes (a : Analysis) (f : FuncDecl) (d : Doc) (p : Phrase) : Declaration → Prop
  | .func h => (∃ depth, d = h.declaration (Rendering.of a h) depth) ∧
      p = ⟨"fn ", Backend.identifier h.name, "("⟩
  | .field s fd => d = s.fieldDoc fd ∧ p = ⟨"pub ", Backend.identifier fd.name, ": "⟩
  | .introduction i => i.Writes f (Rendering.of a f) d p

def ReadIn (a : Analysis) (f : FuncDecl) (c : Declaration) (p : Phrase) : Prop :=
  ∃ d, (whole a).Shows d ∧ c.Writes a f d p ∧ d.Reads p.text

/-- Whether a reference has the spelling of the declaration. Calls lack the mark of keywords. A receiver
is declared as `self` and a parameter by its name, and uses go by the kind of the binding. -/
def agrees (m : Module) : Declaration → Subject → Bool
  | .func h, .call _ => !Backend.reserved.contains h.name
  | .introduction (.receiver b), _ => ((m.binding? b).map fun bd =>
      bd.kind == .receiver || Backend.identifier bd.name == "self").getD true
  | .introduction (.param b), _ => ((m.binding? b).map fun bd =>
      bd.kind != .receiver || Backend.identifier bd.name == "self").getD true
  | _, _ => true

end Declaration

section Components

theorem components_eq (name : String) :
    components name = (name.toList.splitOn '.').map String.ofList := Text.splitOn_char rfl name

theorem components_ne_nil (name : String) : components name ≠ [] := by
  rw [components_eq]
  simp [List.splitOn_ne_nil]

theorem components_qualified {h : FuncDecl} (plain : '.' ∉ h.name.toList) :
    (components h.qualified).getLast? = some h.name := by
  have own := List.splitOn_eq_singleton plain
  rw [components_eq, FuncDecl.qualified]
  split
  · rw [own]
    simp
  · have dot : (h.owner ++ "." ++ h.name).toList = h.owner.toList ++ '.' :: h.name.toList := by simp
    rw [List.splitOn] at own
    rw [dot, List.splitOn, List.splitOnP_append_cons _ _ (by simp), own]
    simp

theorem callee_text (callee : String) : Text.replaceAll "." "::" callee =
    String.join ((components callee).dropLast.map (· ++ "::")) ++
      (components callee).getLast?.getD "" := by
  have last := List.getLast?_eq_some_getLast (components_ne_nil callee)
  rw [Text.replaceAll, ← components]
  nth_rewrite 1 [← List.dropLast_append_getLast? _ last]
  rw [intercalate_split, last]
  simp

theorem identifier_eq_self (name : String) :
    name = Backend.identifier name ↔ Backend.reserved.contains name = false := by
  unfold Backend.identifier
  split
  · rename_i reserved
    rw [reserved]
    refine iff_of_false (fun same => ?_) (by decide)
    have lengths := congrArg String.length same
    rw [String.length_append] at lengths
    have mark : "r#".length = 2 := rfl
    omega
  · rename_i free
    simpa using free

end Components

section Reading

variable {a : Analysis} {f : FuncDecl} {g : Rendering}

theorem Doc.Shows.reads {d e : Doc} (shows_ : d.Shows e) : d.Reads e.flat :=
  Reads.within ⟨"", "", by simp⟩ shows_

theorem init_shown (g : Rendering) (depth : Nat) (stmt : Range) {name : String} {span : Range} {value : Expr}
    {inits : List FieldInit} (member : .mk name span value ∈ inits) :
    Doc.Among (FieldInit.renderAll g depth stmt inits) (.text (Backend.identifier name ++ ": ")) := by
  induction inits with
  | nil => cases member
  | cons i is ih =>
    obtain ⟨_, _, _⟩ := i
    rw [FieldInit.renderAll]
    rcases List.mem_cons.mp member with same | later
    · cases same
      exact ⟨_, List.mem_cons_self, (Doc.Among.of_mem List.mem_cons_self).mapped⟩
    · exact (ih later).mono (List.subset_cons_self _ _)

theorem reference_reads {e : Expr} {r : Reference} (named : r ∈ (Node.expr e).references g)
    (depth : Nat) (stmt : Range) (place : Place) :
    (e.render g depth stmt place).Reads (r.phrase g).text := by
  cases e with
  | absent => cases named
  | node info x y args inits body result =>
    -- a document among the content stands in the document of the node
    refine (?_ : ∃ d, d.flat = (r.phrase g).text ∧ Doc.Among (g.exprContent stmt info x y args
      (x.render g depth stmt (info.xPlace x)) (y.render g depth stmt (info.yPlace x))
      (Expr.renderAll g depth stmt args (g.argPlace info) 0) (FieldInit.renderAll g depth stmt inits)
      (if body.info?.isSome then body.render g depth else result.render g depth stmt .value)) d).elim
      fun d h => h.1 ▸ Doc.Shows.reads (by rw [Expr.render]; exact (h.2.mono (by simp)).mapped)
    have call : ∀ name docs, Doc.Among (Rendering.callDoc name docs) (.text (name ++ "(")) :=
      fun name docs => .of_mem List.mem_cons_self
    rw [Node.references] at named
    unfold Rendering.exprContent
    generalize info.kind = kind at named ⊢
    cases kind with
    | ident =>
      dsimp only at named ⊢
      split at named
      · cases named
      · rename_i resolved
        obtain rfl := List.mem_singleton.mp named
        exact ⟨.text (g.bindingName info.binding), by simp [Phrase.text, Reference.phrase, Subject.word],
          .of_mem (by simp [resolved])⟩
    | call =>
      dsimp only at named ⊢
      unfold Rendering.callContent
      split at named
      · rename_i bound
        obtain rfl := List.mem_singleton.mp named
        rw [if_pos bound]
        exact ⟨_, by simp [Phrase.text, Reference.phrase, Subject.word], call _ _⟩
      · rename_i free
        split at named
        · rename_i found
          obtain rfl := List.mem_singleton.mp named
          rw [if_neg free, if_pos found]
          exact ⟨_, (Doc.flat_text _).trans (congrArg (· ++ "(") (callee_text info.callee)), call _ _⟩
        · cases named
    | methodCall =>
      dsimp only at named ⊢
      unfold Rendering.methodContent
      split at named
      · rename_i found
        obtain rfl := List.mem_singleton.mp named
        rw [if_pos found]
        exact ⟨_, by simp [Phrase.text, Reference.phrase, Subject.word],
          (call _ _).mono (List.subset_cons_self _ _)⟩
      · cases named
    | field =>
      obtain rfl := List.mem_singleton.mp named
      exact ⟨.text ("." ++ Backend.identifier info.name),
        by simp [Phrase.text, Reference.phrase, Subject.word], .of_mem (by simp)⟩
    | structLit =>
      obtain ⟨⟨name, span, value⟩, member, rfl⟩ := List.mem_map.mp named
      refine ⟨_, by simp [Phrase.text, Reference.phrase, Subject.word],
        (init_shown g depth stmt member).mono fun d given => ?_⟩
      simp [Doc.subset_joined ", " _ given]
    | closure =>
      obtain ⟨b, member, rfl⟩ := List.mem_map.mp named
      refine ⟨Doc.synthetic ("let " ++ g.bindingName b ++ " = " ++ g.bindingName b ++ ".clone(); ")
        info.span stmt, by simp [Phrase.text, Reference.phrase, Subject.word, Doc.synthetic], .of_mem ?_⟩
      simp only [Rendering.closureContent, List.cons_append, List.mem_cons, List.mem_append]
      exact .inr (.inl (.inl (.inl (List.mem_map.mpr ⟨b, member, rfl⟩))))
    | lit | index | binary | unary | arrayLit | range => cases named

theorem field_shown {s : StructDecl} (there : s ∈ a.module.structs) {fd : Field}
    (member : fd ∈ s.fields) : (whole a).Shows (s.fieldDoc fd) := by
  have placed : .struct s ∈ a.module.layout := Layout.struct_placed.mpr there
  have struct : (whole a).Shows s.render :=
    (Doc.Among.of_mem (List.mem_cons_of_mem _ (List.mem_map.mpr ⟨_, placed, rfl⟩))).cat
  have declared : s.render.Shows s.declaration := (Doc.Among.of_mem (by simp)).cat
  refine struct.trans (declared.trans (Doc.Among.of_mem ?_).mapped)
  simp [List.mem_map_of_mem member]

theorem declaration_reads (there : f ∈ Layout.written a.module) (sound : (whole a).isSound = true)
    {c : Declaration} {r : Subject} (declared : c.Of a f r) : ∃ p, c.ReadIn a f p := by
  cases c with
  | func h =>
    have placed : h ∈ Layout.written a.module := by
      cases r with
      | call | method => exact declared.1
      | binding | field => cases declared
    obtain ⟨depth, shown⟩ := declaration_shown placed
    refine ⟨_, _, shown, ⟨⟨depth, rfl⟩, rfl⟩, ?_⟩
    obtain ⟨own, behind, -, text⟩ := declaration_text h (Rendering.of a h) depth
    rw [FuncDecl.headText] at text
    exact ⟨"", _, text.trans (by simp only [Phrase.text, String.empty_append, String.append_assoc]; rfl)⟩
  | field s fd =>
    cases r with
    | field =>
      refine ⟨_, _, field_shown declared.1 declared.2.1, ⟨rfl, rfl⟩, indentText 1,
        fd.ty.backendField ++ ("," ++ "\n"), ?_⟩
      simp only [StructDecl.fieldDoc, Doc.mapped, Doc.flat_cat_cons, Doc.flat_marked, Doc.flat_text,
        Doc.flat_cat_nil, Phrase.text, String.append_assoc, String.append_empty]
    | call | method | binding => cases declared
  | introduction i =>
    cases r with
    | binding =>
      obtain ⟨member, rfl, known⟩ := declared
      obtain ⟨bd, known⟩ := Option.isSome_iff_exists.mp known
      exact introduction_reads there sound member known
    | call | method | field => cases declared

theorem introduction_agrees_iff {i : Introduction} {bd : Binding}
    (known : a.module.binding? i.binding = some bd) {d : Doc} {p : Phrase}
    (writes : i.Writes f (Rendering.of a f) d p) : (Rendering.of a f).bindingName i.binding = p.word ↔
      (Declaration.introduction i).agrees a.module (.binding i.binding) = true := by
  have name : (Rendering.of a f).bindingName i.binding =
      if bd.kind = .receiver then "self" else Backend.identifier bd.name := by
    have module : (Rendering.of a f).module = a.module := rfl
    rw [Rendering.bindingName, module, known]
  cases i with
  | receiver b =>
    dsimp only [Introduction.binding] at known name
    obtain ⟨-, rfl⟩ := writes
    rw [Declaration.agrees, known]
    simp only [Introduction.binding, name]
    split <;> simp_all
  | param b =>
    dsimp only [Introduction.binding] at known name
    obtain ⟨-, bd', same, rfl⟩ := writes
    have same : a.module.binding? b = some bd' := same
    obtain rfl := Option.some.inj (known.symm.trans same)
    rw [Declaration.agrees, known]
    simp only [Introduction.binding, name, Option.map_some, Option.getD_some]
    split
    · rename_i kind
      simpa [kind] using eq_comm
    · rename_i kind
      simp [kind]
  | letVar s info =>
    obtain ⟨-, rfl⟩ := writes
    exact iff_of_true rfl rfl
  | loop s info iter =>
    obtain ⟨_, -, rfl⟩ := writes
    exact iff_of_true rfl rfl
  | closureParam e info b =>
    obtain ⟨-, _, _, -, rfl⟩ := writes
    exact iff_of_true rfl rfl

theorem words_agree_iff (plain : ∀ h ∈ Layout.written a.module, '.' ∉ h.name.toList) {r : Subject}
    {c : Declaration} (declared : c.Of a f r) {d : Doc} {p : Phrase} (writes : c.Writes a f d p) :
    r.word (Rendering.of a f) = p.word ↔ c.agrees a.module r = true := by
  cases r with
  | call callee =>
    cases c with
    | func h =>
      obtain ⟨there, rfl⟩ := declared
      obtain ⟨-, rfl⟩ := writes
      rw [Subject.word, components_qualified (plain h there), Option.getD_some, identifier_eq_self]
      simp [Declaration.agrees]
    | field | introduction => cases declared
  | method target name =>
    cases c with
    | func h =>
      obtain ⟨there, rfl, last⟩ := declared
      obtain ⟨-, rfl⟩ := writes
      rw [components_qualified (plain h there)] at last
      rw [Subject.word, Option.some.inj last]
      exact iff_of_true rfl rfl
    | field | introduction => cases declared
  | field name =>
    cases c with
    | field s fd =>
      obtain ⟨-, -, rfl⟩ := declared
      obtain ⟨-, rfl⟩ := writes
      exact iff_of_true rfl rfl
    | func | introduction => cases declared
  | binding b =>
    cases c with
    | func | field => cases declared
    | introduction i =>
      obtain ⟨-, rfl, known⟩ := declared
      obtain ⟨bd, known⟩ := Option.isSome_iff_exists.mp known
      exact introduction_agrees_iff known writes

end Reading

/-- In a program that is written and whose functions have names without dots, every reference to something
that the module declares stands in the text, and so does the declaration. Fields and methods are spelled
alike in both, and so are bindings, unless a function lists a receiver among its parameters or another
binding as its receiver. A function is spelled alike in its calls exactly when its name is no keyword. -/
theorem references_spelled_as_declared {m : Module} {limit : Int} {file : String} {u : Generated}
    (made : (Analysis.of m limit).generate file = some u)
    (plain : ∀ h ∈ Layout.written m, '.' ∉ h.name.toList) {f : FuncDecl} (there : f ∈ Layout.written m)
    {n : Node} (written : n ∈ f.written) :
    let a := Analysis.of m limit
    let g := Rendering.of a f
    ∀ r ∈ n.references g,
      (∃ e depth stmt place, n = .expr e ∧ (whole a).Shows (e.render g depth stmt place) ∧
        (e.render g depth stmt place).Reads (r.phrase g).text) ∧
      u.Prints (r.phrase g).text ∧
      ∀ c : Declaration, c.Of a f r.subject → ∃ p, c.ReadIn a f p ∧ u.Prints p.text ∧
        ((r.phrase g).word = p.word ↔ c.agrees m r.subject = true) := by
  intro a g r named
  have sound := (generate_spec made).1
  cases n with
  | stmt s => cases named
  | expr e =>
    obtain ⟨depth, stmt, place, shown⟩ := @func_written_shown a f there _ written
    have reads := reference_reads named depth stmt place
    refine ⟨⟨e, depth, stmt, place, rfl, shown, reads⟩, prints_of_reads made shown reads, ?_⟩
    intro c declared
    obtain ⟨p, d, placed, writes, declares⟩ := @declaration_reads a f there sound c _ declared
    exact ⟨p, ⟨d, placed, writes, declares⟩, prints_of_reads made placed declares,
      words_agree_iff plain declared writes⟩

namespace Sample

def keyworded : Document :=
  { file := "src/main.kl", module := "main", source := some ""
    bindings := [{ id := 1, name := "type", kind := "param", ty := "string" }]
    funcs := [
      { name := "match", params := [1], span := [1, 1, 3, 2]
        body := [.node { kind := "expr", span := [2, 3, 2, 14] } .absent
          (.node { kind := "call", name := "match", target := "match", span := [2, 3, 2, 14] } .absent
            .absent [nameAt 1 [2, 9, 2, 13]] [] .absent .absent) [] .absent] }] }

theorem keyworded_accepted : keyworded.program?.isSome = true := by decide +kernel

def keywordedProgram : Module := keyworded.program?.get keyworded_accepted

theorem keyworded_checked :
    (Analysis.of keywordedProgram).generate.isSome = true ∧
      (∀ h ∈ Layout.written keywordedProgram, '.' ∉ h.name.toList) ∧
      ∃ f ∈ Layout.written keywordedProgram, f.qualified = "match" ∧
        (∃ n ∈ f.written, ∃ r ∈ n.references (Rendering.of (Analysis.of keywordedProgram) f),
          r.subject = .binding 1) ∧
        (∃ n ∈ f.written, ∃ r ∈ n.references (Rendering.of (Analysis.of keywordedProgram) f),
          r.subject = .call "match" ∧
          (r.phrase (Rendering.of (Analysis.of keywordedProgram) f)).text = "match(") ∧
        (keywordedProgram.binding? 1).isSome = true ∧ (∃ i ∈ f.introductions, i.binding = 1 ∧
          (Declaration.introduction i).agrees keywordedProgram (.binding 1) = true) ∧
        (f.declaration (Rendering.of (Analysis.of keywordedProgram) f) 0).flat =
          "fn r#match(r#type: &String) \x7b\n    match(r#type);\n\x7d" := by
  decide +kernel

end Sample

theorem keyword_parameter_spelled :
    ∃ u, (Analysis.of Sample.keywordedProgram).generate = some u ∧
      ∃ f ∈ Layout.written Sample.keywordedProgram, ∃ n ∈ f.written,
        ∃ r ∈ n.references (Rendering.of (Analysis.of Sample.keywordedProgram) f), r.subject = .binding 1 ∧
          ∃ i ∈ f.introductions, i.binding = 1 ∧ ∃ p,
            (Declaration.introduction i).ReadIn (Analysis.of Sample.keywordedProgram) f p ∧
            u.Prints p.text ∧
            (r.phrase (Rendering.of (Analysis.of Sample.keywordedProgram) f)).word = p.word := by
  obtain ⟨generated, plain, f, there, -, ⟨n, written, r, named, subject⟩, -, known,
    ⟨i, introduced, own, agrees⟩, -⟩ := Sample.keyworded_checked
  obtain ⟨u, made⟩ := Option.isSome_iff_exists.mp generated
  obtain ⟨-, -, each⟩ := references_spelled_as_declared made plain there written r named
  rw [subject] at each
  obtain ⟨p, reads, prints, words⟩ := each (.introduction i) ⟨introduced, own, known⟩
  exact ⟨u, made, f, there, n, written, r, named, subject, i, introduced, own, p, reads, prints,
    words.mpr agrees⟩

/-- The function of the sample is declared with the mark of keywords, and called without. -/
theorem keyword_call_unmarked :
    (Sample.keyworded.accept {} fun _ => none).2 = .ok Sample.keywordedProgram ∧
      (Analysis.of Sample.keywordedProgram).generate.isSome = true ∧
      ∃ f ∈ Layout.written Sample.keywordedProgram, ∃ n ∈ f.written,
        ∃ r ∈ n.references (Rendering.of (Analysis.of Sample.keywordedProgram) f),
          (Declaration.func f).Of (Analysis.of Sample.keywordedProgram) f r.subject ∧
          (r.phrase (Rendering.of (Analysis.of Sample.keywordedProgram) f)).text = "match(" ∧
          (f.declaration (Rendering.of (Analysis.of Sample.keywordedProgram) f) 0).flat =
            "fn r#match(r#type: &String) \x7b\n    match(r#type);\n\x7d" := by
  obtain ⟨generated, -, f, there, name, -, ⟨n, written, r, named, subject, text⟩, -, -, declared⟩ :=
    Sample.keyworded_checked
  refine ⟨Document.accept_program Sample.keyworded_accepted, generated, f, there, n, written, r, named, ?_,
    text, declared⟩
  rw [subject]
  exact ⟨there, name⟩

end Tenure
