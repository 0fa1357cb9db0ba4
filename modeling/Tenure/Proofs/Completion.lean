import Tenure.Proofs.Content
import Tenure.Proofs.Writings

/- When an accepted program can be written. The checks at the door leave two things open: a function
   may list a parameter that is none, and a loop may have nothing to run over. These, and a text that
   is too long for its offsets, are all that keeps a program from being written. Each mark in the
   document of a node stands for one of the nodes that are written, so whatever these nodes keep holds of
   the document. -/
namespace Tenure

open Backend (whole pieceDoc)

/-- The document is that of the node, or it is marked as one of its labels. -/
def Node.Wrote (g : Rendering) (d : Doc) (n : Node) : Prop :=
  (match n with
    | .expr e => ∃ depth stmt place, d = e.render g depth stmt place
    | .stmt s => ∃ depth, d = s.render g depth) ∨
  ∃ label ∈ n.labels g.module, ∃ stmt content, d = Doc.mapped label stmt content

structure Node.Keeps (g : Rendering) (P : Doc → Prop) (n : Node) : Prop where
  mark : ∀ origin stmt content, n.Wrote g (Doc.mapped origin stmt content) → (∀ d ∈ content, P d) →
    P (Doc.mapped origin stmt content)
  adapts : n.Adapts g P

theorem lines_kept {g : Rendering} {P : Doc → Prop} (closed : ∀ stmt, Doc.Closed P stmt) (depth : Nat)
    (ss : List Stmt) (h : ∀ n ∈ Stmt.writtenAll ss, n.Keeps g P) :
    ∀ d ∈ Stmt.renderLines g depth ss, P d := by
  have upholds : Upholds g (fun _ => P) fun w => ∀ n ∈ w.written, n.Keeps g P := by
    refine ⟨fun r => (closed r).text, ?_, fun good part n member => good n (part.written member)⟩
    intro w good there
    have own := good w.node (Writing.node_written there)
    refine ⟨closed _, fun origin label content => ?_, own.adapts, fun content doc kept r _ => ?_⟩
    · exact own.mark _ _ _ (.inr ⟨origin, label, _, content, rfl⟩)
    · rw [doc]
      refine own.mark _ _ _ (.inl ?_) kept
      cases w with
      | expr depth stmt e place => exact ⟨depth, stmt, place, doc.symm⟩
      | stmt depth s => exact ⟨depth, doc.symm⟩
  refine upholds.lines (r := Range.zero) fun s member n inside => h n ?_
  rw [written_stmts.flatMap]
  exact List.mem_flatMap_of_mem member inside

/-- Every mark in the document that is not scaffolding is from one of the nodes. -/
def Doc.MarkedBy (g : Rendering) (ns : List Node) (d : Doc) : Prop :=
  ∀ mark inner, d.Shows (.marked mark inner) → mark.synthetic = false →
    ∃ n ∈ ns, n.Wrote g (.marked mark inner)

namespace Doc.MarkedBy

variable {g : Rendering} {ns : List Node}

theorem text (s : String) : Doc.MarkedBy g ns (.text s) := by
  rintro mark inner ⟨o, part⟩
  cases part

theorem fault : Doc.MarkedBy g ns .fault := by
  rintro mark inner ⟨o, part⟩
  cases part

theorem cat {ds : List Doc} (h : ∀ d ∈ ds, Doc.MarkedBy g ns d) : Doc.MarkedBy g ns (.cat ds) := by
  induction ds with
  | nil =>
    rintro mark inner ⟨o, part⟩
    cases part
  | cons d ds ih =>
    rw [List.forall_mem_cons] at h
    rintro mark inner ⟨o, part⟩
    cases part with
    | head first => exact h.1 mark inner ⟨_, first⟩
    | tail later => exact ih h.2 mark inner ⟨_, later⟩

theorem marked {mark : Mark} {d : Doc} (h : Doc.MarkedBy g ns d)
    (own : mark.synthetic = false → ∃ n ∈ ns, n.Wrote g (.marked mark d)) :
    Doc.MarkedBy g ns (.marked mark d) := by
  rintro mark inner ⟨o, part⟩
  cases part with
  | here => exact own
  | marked within => exact h mark inner ⟨_, within⟩

theorem mono {ms : List Node} {d : Doc} (h : Doc.MarkedBy g ns d) (sub : ns ⊆ ms) :
    Doc.MarkedBy g ms d := by
  intro mark inner part own
  obtain ⟨n, member, wrote⟩ := h mark inner part own
  exact ⟨n, sub member, wrote⟩

theorem synthetic (s : String) (origin stmt : Range) :
    Doc.MarkedBy g ns (Doc.synthetic s origin stmt) :=
  (text s).marked nofun

theorem closed (stmt : Range) : Doc.Closed (Doc.MarkedBy g ns) stmt :=
  ⟨text, fun _ => cat, fun s origin => synthetic s origin stmt⟩

end Doc.MarkedBy

theorem block_marks (g : Rendering) (depth : Nat) (ss : List Stmt) :
    Doc.MarkedBy g (Stmt.writtenAll ss) (blockDoc depth (Stmt.renderLines g (depth + 1) ss)) := by
  refine (Doc.MarkedBy.closed Range.zero).blockDoc (lines_kept Doc.MarkedBy.closed _ _ ?_)
  intro n member
  constructor
  · intro origin stmt content wrote h
    exact (Doc.MarkedBy.cat h).marked fun _ => ⟨n, member, wrote⟩
  · cases n with
    | expr e => trivial
    | stmt s => exact Writing.adapts (.stmt depth s) (Doc.MarkedBy.closed _) .fault

namespace Doc

variable {root d : Doc} {ds : List Doc} {o : Nat}

theorem isSoundAll_iff : isSoundAll ds = true ↔ ∀ d ∈ ds, d.isSound = true := by
  induction ds with
  | nil => simp [isSoundAll]
  | cons d ds ih => simp [isSoundAll, ih]

theorem cat_sound : (Doc.cat ds).isSound = true ↔ ∀ d ∈ ds, d.isSound = true := by
  rw [isSound, isSoundAll_iff]

theorem mapped_sound {origin stmt : Range} :
    (Doc.mapped origin stmt ds).isSound = true ↔ ∀ d ∈ ds, d.isSound = true := by
  rw [Doc.mapped, isSound, cat_sound]

theorem At.sound (h : At root o d) (sound : root.isSound = true) : d.isSound = true := by
  induction h with
  | here d => exact sound
  | marked h ih =>
    rw [isSound] at sound
    exact ih sound
  | head h ih => exact ih (cat_sound.mp sound _ List.mem_cons_self)
  | tail h ih =>
    refine ih (cat_sound.mpr fun d member => ?_)
    exact cat_sound.mp sound d (List.mem_cons_of_mem _ member)

theorem sound_closed (stmt : Range) : Doc.Closed (fun d => d.isSound = true) stmt where
  text s := by rw [isSound]
  cat ds h := cat_sound.mpr h
  synthetic s origin := by rw [synthetic, isSound, isSound]

end Doc

def Node.Writable (g : Rendering) (n : Node) : Prop := n.Adapts g (·.isSound = true)

theorem lines_sound (g : Rendering) (depth : Nat) (ss : List Stmt)
    (h : ∀ n ∈ Stmt.writtenAll ss, n.Writable g) : ∀ d ∈ Stmt.renderLines g depth ss, d.isSound = true :=
  lines_kept Doc.sound_closed depth ss fun n member =>
    ⟨fun _ _ _ _ content => Doc.mapped_sound.mpr content, h n member⟩

variable {g : Rendering} {f : FuncDecl} {a : Analysis}

theorem writable_of_shown {root : Doc} {n : Node} (shown : n.ShownIn g root)
    (sound : root.isSound = true) : n.Writable g := by
  cases n with
  | expr e => trivial
  | stmt s =>
    cases s with
    | absent => trivial
    | node info target value body orElse =>
      intro kind
      obtain ⟨depth, o, part⟩ := shown
      have whole := part.sound sound
      rw [Stmt.render, Doc.mapped_sound] at whole
      refine whole _ ?_
      simp [Rendering.stmtContent, kind]

/-- The bindings that a function declares in its header are known, and its body can be written. -/
structure FuncDecl.Renders (f : FuncDecl) (g : Rendering) : Prop where
  receiver : f.receiver ≠ 0 → (g.module.binding? f.receiver).isSome
  params : ∀ p ∈ f.params, (g.module.binding? p).isSome
  body : ∀ n ∈ f.written, n.Writable g

theorem receiverDoc_sound :
    (f.receiverDoc g).isSound = true ↔ (g.module.binding? f.receiver).isSome := by
  unfold FuncDecl.receiverDoc
  split
  · rename_i none
    simp [none, Doc.isSound]
  · rename_i b known
    simp only [known, Option.isSome_some, iff_true, Doc.mapped_sound]
    split <;> simp [Doc.isSound, Rendering.mutMark, Doc.when_]

theorem paramDoc_sound {p : Nat} :
    (f.paramDoc g p).isSound = true ↔ (g.module.binding? p).isSome := by
  unfold FuncDecl.paramDoc
  split
  · rename_i none
    simp [none, Doc.isSound]
  · rename_i b known
    simp [known, Doc.mapped_sound, Doc.isSound, Rendering.mutMark, Doc.when_]

theorem joined_sound {s : String} {ds : List Doc} :
    (∀ d ∈ Doc.joined s ds, d.isSound = true) ↔ ∀ d ∈ ds, d.isSound = true :=
  ⟨fun h d member => h d (Doc.subset_joined s ds member),
    fun h => (Doc.sound_closed Range.zero).joined h⟩

theorem declaration_sound_iff {depth : Nat} :
    (f.declaration g depth).isSound = true ↔ f.Renders g := by
  have receiver : (∀ d ∈ (if f.receiver = 0 then [] else [f.receiverDoc g]), d.isSound = true) ↔
      (f.receiver ≠ 0 → (g.module.binding? f.receiver).isSome) := by
    by_cases none : f.receiver = 0
    · simp [none]
    · simp [none, receiverDoc_sound]
  have lines : (blockDoc depth (Stmt.renderLines g (depth + 1) f.body)).isSound = true ↔
      ∀ n ∈ f.written, n.Writable g := by
    constructor
    · intro sound n member
      obtain ⟨d, line, shown⟩ := stmts_written_shown g (depth + 1) member
      exact writable_of_shown (shown.within (blockDoc_shows line)) sound
    · intro h
      exact (Doc.sound_closed Range.zero).blockDoc (lines_sound g (depth + 1) f.body h)
  rw [FuncDecl.declaration, Doc.mapped_sound]
  simp only [List.cons_append, List.forall_mem_cons, List.forall_mem_append, joined_sound, receiver,
    List.forall_mem_map, paramDoc_sound, lines, Doc.isSound, true_and, List.not_mem_nil,
    false_implies, implies_true, and_true]
  constructor
  · rintro ⟨⟨receiver, params⟩, body⟩
    exact ⟨receiver, params, body⟩
  · intro h
    exact ⟨⟨h.receiver, h.params⟩, h.body⟩

theorem whole_sound_iff : (whole a).isSound = true ↔
    ∀ f ∈ Layout.written a.module, f.Renders (Rendering.of a f) := by
  constructor
  · intro sound f there
    rw [whole, Doc.cat_sound, List.forall_mem_cons, List.forall_mem_map] at sound
    obtain ⟨depth, placed⟩ := Layout.func_placed.mpr there
    have written := sound.2 _ placed
    rw [pieceDoc, FuncDecl.render, Doc.cat_sound] at written
    exact declaration_sound_iff.mp (written (f.declaration (Rendering.of a f) depth) (by simp))
  · intro h
    have closed := Doc.sound_closed
    refine whole_kept (closed Range.zero).text (closed Range.zero).cat (fun s _ => ?_) fun f depth placed => ?_
    · obtain ⟨content, doc, kept⟩ := (closed s.span).structContent
        fun _ _ _ content => Doc.mapped_sound.mpr content
      rw [doc]
      exact Doc.mapped_sound.mpr kept
    · exact declaration_sound_iff.mpr (h f (Layout.func_placed.mp ⟨depth, placed⟩))

section Adaptors

variable (m : Module)

theorem settle_adaptors (c : Collection) (v : Verdict) (b : Nat) :
    (v.settle m c b).adaptors = v.adaptors := by
  unfold Verdict.settle
  split <;> rfl

theorem loops_adaptors (c : Collection) (ls : List LoopSite) : ∀ l ∈ ls, ∃ k ∈ ls, k.stmt = l.stmt ∧
    ∃ mode, (ls.foldr (resolveLoop m) (c, {})).2.adaptors.lookup l.stmt = some (k.adaptor m mode) := by
  induction ls with
  | nil => exact nofun
  | cons k ls ih =>
    intro l member
    rw [List.foldr_cons, resolveLoop]
    simp only [lookup_setKey, settle_adaptors]
    by_cases same : l.stmt = k.stmt
    · exact ⟨k, List.mem_cons_self, same.symm, _, if_pos same⟩
    · have later : l ∈ ls := by
        rcases List.mem_cons.mp member with rfl | later
        · exact absurd rfl same
        · exact later
      obtain ⟨j, there, number, mode, known⟩ := ih l later
      exact ⟨j, List.mem_cons_of_mem _ there, number, mode, by rw [if_neg same, known]⟩

theorem resolve_adaptors (c : Collection) : (c.resolve m).2.adaptors = (c.looped m).2.adaptors := by
  refine List.foldlRecOn (motive := fun v : Verdict => v.adaptors = (c.looped m).2.adaptors) _ _ rfl ?_
  intro v same u _
  split
  · exact same
  · exact (settle_adaptors m _ v u.binding).trans same

theorem analyze_adaptor (f : FuncDecl) (table : Signatures) {l : LoopSite}
    (member : l ∈ (f.collect table).loops) : ∃ k ∈ (f.collect table).loops, k.stmt = l.stmt ∧
      ∃ mode, (f.analyze m table).verdict.adaptor l.stmt = k.adaptor m mode := by
  obtain ⟨k, there, number, mode, known⟩ := loops_adaptors m (f.collect table) _ l member
  refine ⟨k, there, number, mode, ?_⟩
  have all : (f.analyze m table).verdict.adaptors = ((f.collect table).looped m).2.adaptors :=
    resolve_adaptors m (f.collect table)
  rw [Verdict.adaptor, all, Collection.looped, known]
  rfl

theorem adaptor_of_absent (l : LoopSite) (none : l.iter.info?.isSome = false) (mode : Mode) :
    (l.adaptor m mode).suffixText.isEmpty = false := by
  have open_ : l.iter.isKind .range = false := by
    unfold Expr.isKind
    cases known : l.iter.info? with
    | none => rfl
    | some info => rw [known] at none; exact absurd none nofun
  unfold LoopSite.adaptor
  rw [open_, if_neg Bool.false_ne_true]
  split
  · decide
  · cases mode <;> decide

end Adaptors

def Node.hasIterable : Node → Bool
  | .stmt (.node info _ value _ _) => info.kind != .forLoop || value.info?.isSome
  | _ => true

theorem site_node {table : Signatures} {l : LoopSite}
    (member : l ∈ (f.collect table).loops) : ∃ info target value body orElse,
      Node.stmt (.node info target value body orElse) ∈ f.visits ∧
        l = ⟨info.id, info.binding, value⟩ := by
  rw [FuncDecl.collect_loops] at member
  obtain ⟨n, visited, site⟩ := List.mem_filterMap.mp member
  cases n with
  | expr e => cases site
  | stmt s =>
    cases s with
    | absent => cases site
    | node info target value body orElse =>
      rw [Node.site?] at site
      split at site
      · exact ⟨info, target, value, body, orElse, visited, (Option.some.inj site).symm⟩
      · cases site

theorem site_unique {m : Module} (filed : m.Filed) (known : f ∈ m.funcs)
    (table : Signatures) {j k : LoopSite} (first : j ∈ (f.collect table).loops)
    (second : k ∈ (f.collect table).loops) (number : j.stmt = k.stmt) : j = k := by
  have stored := stmts_visits_stored (filed.bodies f known)
  obtain ⟨info, _, value, _, _, here, rfl⟩ := site_node first
  obtain ⟨info', _, value', _, _, there, rfl⟩ := site_node second
  have same := stored_stmt_unique (stored _ here) (stored _ there) number
  injection same with infos _ values
  rw [infos, values]

theorem writable_iff {m : Module} (filed : m.Filed) (there : f ∈ Layout.written m)
    (limit : Int) {n : Node} (member : n ∈ f.written) :
    n.Writable (Rendering.of (Analysis.of m limit) f) ↔ n.hasIterable = true := by
  cases n with
  | expr e => exact iff_of_true trivial rfl
  | stmt s =>
    cases s with
    | absent => exact iff_of_true trivial rfl
    | node info target value body orElse =>
      by_cases kind : info.kind = .forLoop
      · have site : (⟨info.id, info.binding, value⟩ : LoopSite) ∈
            (f.collect (Analysis.of m limit).table).loops := by
          rw [FuncDecl.collect_loops]
          refine List.mem_filterMap.mpr ⟨_, stmts_written_visited f.body member, ?_⟩
          rw [Node.site?, if_pos kind]
        obtain ⟨k, other, number, mode, adaptor⟩ := analyze_adaptor m f _ site
        obtain rfl := site_unique filed (List.mem_filter.mp there).1 _ other site number
        simp only [Node.Writable, Node.Adapts, Node.hasIterable, kind, forall_const, bne_self_eq_false,
          Bool.false_or]
        unfold adaptorDoc
        rw [rendering_verdict filed there, adaptor]
        cases iter : value.info? with
        | some i =>
          simp only [Option.isSome_some, iff_true]
          split
          · exact (Doc.sound_closed Range.zero).text ""
          · exact (Doc.sound_closed info.span).synthetic _ _
        | none =>
          have suffix := adaptor_of_absent m ⟨info.id, info.binding, value⟩ (by simp [iter]) mode
          simp [suffix, Doc.isSound]
      · exact iff_of_true (fun is => absurd is kind) (by simp [Node.hasIterable, kind])

/-- An accepted program can be written exactly when every parameter of a function with a body is a
binding, every loop that is written has something to run over, and the pieces of the text can be put in
a row: each of them starts at a word, and its marks end at words when they are counted from there. -/
theorem generate_isSome_iff {fs : FileSet} {disk : String → Option Bytes} {d : Document} {m : Module}
    (accepted : (d.accept fs disk).2 = .ok m) (limit : Int) (file : String) :
    ((Analysis.of m limit).generate file).isSome = true ↔
      (∀ f ∈ Layout.written m, 0 ∉ f.params ∧ ∀ n ∈ f.written, n.hasIterable = true) ∧
        (whole (Analysis.of m limit)).IsStack := by
  have filed := Document.accept_filed accepted
  have renders : ∀ f ∈ Layout.written m, f.Renders (Rendering.of (Analysis.of m limit) f) ↔
      0 ∉ f.params ∧ ∀ n ∈ f.written, n.hasIterable = true := by
    intro f there
    have known := (List.mem_filter.mp there).1
    constructor
    · rintro ⟨-, params, body⟩
      refine ⟨fun zero => absurd (params 0 zero) (by simp [Module.binding?]), ?_⟩
      intro n member
      exact (writable_iff filed there limit member).mp (body n member)
    · rintro ⟨proper, loops⟩
      refine ⟨filed.receivers f known, ?_, ?_⟩
      · intro p member
        exact filed.params f known p member fun zero => proper (zero ▸ member)
      · intro n member
        exact (writable_iff filed there limit member).mpr (loops n member)
  rw [generate_isSome, whole_sound_iff]
  exact and_congr_left' (forall₂_congr renders)

def Document.program? (d : Document) : Option Module :=
  match (d.accept {} fun _ => none).2 with
  | .ok m => some m
  | .error _ => none

theorem Document.accept_program {d : Document} (accepted : d.program?.isSome = true) :
    (d.accept {} fun _ => none).2 = .ok (d.program?.get accepted) := by
  cases outcome : (d.accept {} fun _ => none).2 with
  | error e => simp [Document.program?, outcome] at accepted
  | ok m => simp [Document.program?, outcome]

namespace Sample

def nameless : Document :=
  { file := "src/main.kl", module := "main", source := some "fn f(x) {}\n"
    funcs := [{ name := "f", params := [0], span := [1, 1, 1, 11] }] }

def loopOver (value : Document.Expr) : Document :=
  { file := "src/main.kl", module := "main", source := some "fn f(xs) { for x in xs {} }\n"
    bindings := [{ id := 7, name := "xs", kind := "param" }, { id := 9, name := "x", kind := "loop" }]
    funcs := [{
      name := "f", params := [7], span := [1, 1, 1, 28]
      body := [.node { kind := "for", binding := 9, span := [1, 12, 1, 26] } .absent value []
        .absent] }] }

def aimless : Document := loopOver .absent

def steady : Document :=
  loopOver (.node { kind := "ident", name := "xs", binding := 7, span := [1, 21, 1, 23] } .absent
    .absent [] [] .absent .absent)

theorem all_accepted : nameless.program?.isSome = true ∧ aimless.program?.isSome = true ∧
    steady.program?.isSome = true := by
  decide +kernel

end Sample

theorem steady_generated :
    ∃ m, (Sample.steady.accept {} fun _ => none).2 = .ok m ∧
      ((Analysis.of m).generate).isSome = true := by
  have accepted := Document.accept_program Sample.all_accepted.2.2
  exact ⟨_, accepted, (generate_isSome_iff accepted 0 "").mpr (by decide +kernel)⟩

/-- Acceptance does not see to it that a program can be written. -/
theorem accepted_not_generated :
    (∃ m, (Sample.nameless.accept {} fun _ => none).2 = .ok m ∧
      (Analysis.of m).generate.isSome = false) ∧
      ∃ m, (Sample.aimless.accept {} fun _ => none).2 = .ok m ∧
        (Analysis.of m).generate.isSome = false :=
  ⟨⟨_, Document.accept_program Sample.all_accepted.1, by decide +kernel⟩,
    _, Document.accept_program Sample.all_accepted.2.1, by decide +kernel⟩

end Tenure
