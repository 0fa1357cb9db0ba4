import Tenure.Proofs.Completion
import Tenure.Proofs.Traces

/- Duplicates in the text. What the analysis wants duplicated is written as a duplicate, and the map
   shows it as text that the author did not write. -/
namespace Tenure

open Backend (whole)

def Generated.slice (u : Generated) (s : Segment) : Bytes :=
  ((Bytes.ofString u.text).take s.stop).drop s.start

theorem infix_slice {α : Type} (before own behind : List α) {start stop : Nat}
    (lo : start ≤ before.length) (hi : before.length + own.length ≤ stop) :
    own <:+: ((before ++ own ++ behind).take stop).drop start := by
  have kept : ((before ++ own ++ behind).take stop).drop start =
      before.drop start ++ own ++ behind.take (stop - (before.length + own.length)) := by
    rw [List.take_append, List.take_of_length_le (by simpa using hi), List.length_append,
      List.append_assoc, List.drop_append_of_le_length lo, List.append_assoc]
  rw [kept]
  exact List.infix_append _ _ _

theorem synthetic_segment {root : Doc} {origin stmt : Range} {own : String}
    (shows_ : root.Shows (Doc.synthetic own origin stmt)) (filled : own ≠ "") :
    ∃ s ∈ SourceMap.flatten (root.entries 0), s.origin = origin ∧ s.synthetic = true ∧
      Bytes.ofString own <:+: ((Bytes.ofString root.flat).take s.stop).drop s.start := by
  obtain ⟨o, part⟩ := shows_
  obtain ⟨outer, around⟩ := part.around_part 0
  have long := Nat.pos_of_ne_zero (mt String.utf8ByteSize_eq_zero_iff.mp filled)
  have same : ∀ b, o ≤ b → b < o + own.utf8ByteSize →
      SourceMap.creditOf (SourceMap.around (root.entries 0) b) = SourceMap.creditOf
        (Mark.entry ⟨origin, stmt, true⟩ (.text own) (0 + o) :: outer) := by
    intro b lo hi
    have covered : (Mark.entry ⟨origin, stmt, true⟩ (.text own) (0 + o)).covers b = true :=
      Entry.covers_iff.mpr (by simp only [Mark.entry, Doc.size_text]; omega)
    have chain : ((Doc.synthetic own origin stmt).entries (0 + o)).filter (·.covers b) =
        [Mark.entry ⟨origin, stmt, true⟩ (.text own) (0 + o)] := by
      rw [Doc.synthetic, Doc.entries_marked, Doc.entries_text, List.nil_append, List.filter_eq_self]
      simpa using covered
    rw [Doc.around_entries, around b (by omega) (by simpa [Doc.synthetic] using hi), chain]
    rfl
  obtain ⟨s, hs, lo, hi, credit⟩ :=
    SourceMap.flatten_run (Doc.entries_wellNested root 0) (by omega) same
  refine ⟨s, hs, congrArg Credit.origin credit, congrArg Credit.synthetic credit, ?_⟩
  obtain ⟨before, rest, text, place⟩ := part.text_split
  have bytes : Bytes.ofString root.flat =
      Bytes.ofString before ++ Bytes.ofString own ++ Bytes.ofString rest := by
    rw [text, Doc.synthetic, Doc.flat_marked, Doc.flat_text]
    simp [Bytes.ofString]
  rw [bytes]
  apply infix_slice
  · rwa [Bytes.ofString_length, place]
  · rwa [Bytes.ofString_length, Bytes.ofString_length, place]

def Rendering.captureText (g : Rendering) (b : Nat) : String :=
  "let " ++ g.bindingName b ++ " = " ++ g.bindingName b ++ ".clone(); "

theorem clone_in_captureText (g : Rendering) (b : Nat) :
    Bytes.ofString ".clone()" <:+: Bytes.ofString (g.captureText b) := by
  have parts : Bytes.ofString (g.captureText b) =
      Bytes.ofString ("let " ++ g.bindingName b ++ " = " ++ g.bindingName b) ++
        Bytes.ofString ".clone()" ++ Bytes.ofString "; " := by
    simp [Rendering.captureText, Bytes.ofString]
  rw [parts]
  exact List.infix_append _ _ _

theorem mem_closureContent {g : Rendering} {info : ExprInfo} {b : Nat} (stmt : Range) (body : Doc)
    (taken : b ∈ g.verdict.captureClones info.id) :
    Doc.synthetic (g.captureText b) info.span stmt ∈ g.closureContent stmt info body := by
  have copied := List.mem_map_of_mem (f := fun b => Doc.synthetic (g.captureText b) info.span stmt) taken
  unfold Rendering.closureContent
  simp only [List.cons_append, List.mem_cons, List.mem_append]
  exact .inr (.inl (.inl (.inl copied)))

section Duplicates

variable {m : Module} (filed : m.Filed) (single : ∀ e ∈ m.exprs, e.isForked = false) {limit : Int}
  {f : FuncDecl} (there : f ∈ Layout.written m)

include filed single there

theorem visited_shown {n : Node} (visited : n ∈ f.visits) :
    n.ShownIn (Rendering.of (Analysis.of m limit) f) (whole (Analysis.of m limit)) :=
  @func_written_shown (Analysis.of m limit) f there n
    (@stmts_visits_written ⟨m.exprs, m.stmts⟩ single f.body
      (filed.bodies f (List.mem_filter.mp there).1) n visited)

theorem clone_shown {p : DuplicatePoint}
    (made : p ∈ (f.analyze m (Analysis.of m limit).table).verdict.points) (plain : p.capture = false) :
    ∃ stmt, (whole (Analysis.of m limit)).Shows (Doc.synthetic ".clone()" p.span stmt) := by
  have traced := analyze_traced m (Analysis.of m limit).table f
  have stored := stmts_visits_stored (filed.bodies f (List.mem_filter.mp there).1)
  have origin := traced p made
  rw [DuplicatePoint.Traced, plain, if_neg Bool.false_ne_true] at origin
  obtain ⟨e, info, visited, known, id, span⟩ := origin
  obtain ⟨depth, stmt, place, shown⟩ := visited_shown filed single there visited
  refine ⟨stmt, shown.trans ?_⟩
  -- the last duplicate for this use counts, and all of them have its place
  have mark : (Rendering.of (Analysis.of m limit) f).cloneMark stmt info.id =
      Doc.synthetic ".clone()" p.span stmt := by
    rw [Rendering.cloneMark, rendering_verdict filed there, Verdict.duplicate?]
    cases search : (f.analyze m (Analysis.of m limit).table).verdict.points.reverse.find?
        (fun p => !p.capture && p.expr == info.id) with
    | none =>
      have missing := List.find?_eq_none.mp search p (List.mem_reverse.mpr made)
      exact absurd missing (by simp [plain, id])
    | some q =>
      have fits := List.find?_some search
      simp only [Bool.and_eq_true, Bool.not_eq_true', beq_iff_eq] at fits
      have other := traced q (List.mem_reverse.mp (List.mem_of_find?_eq_some search))
      rw [DuplicatePoint.Traced, fits.1, if_neg Bool.false_ne_true] at other
      obtain ⟨d, info', visited', known', id', span'⟩ := other
      have same : d = e := stored_expr_unique (stored _ visited') (stored _ visited) (by
        rw [Expr.id_eq known', Expr.id_eq known, id', fits.2])
      rw [same, known] at known'
      have place : q.span = p.span := by rw [← span', ← span, Option.some.inj known']
      dsimp only
      rw [place]
  cases e with
  | absent => exact absurd known nofun
  | node i x y args inits body result =>
    obtain rfl := Option.some.inj known
    rw [Expr.render, ← mark]
    exact (Doc.Among.of_mem (by simp)).mapped

theorem capture_shown {p : DuplicatePoint}
    (made : p ∈ (f.analyze m (Analysis.of m limit).table).verdict.points) (captured : p.capture = true) :
    ∃ e info stmt, m.expr? p.expr = some e ∧ e.info? = some info ∧ info.kind = .closure ∧
      (whole (Analysis.of m limit)).Shows (Doc.synthetic
        ((Rendering.of (Analysis.of m limit) f).captureText p.binding) info.span stmt) := by
  have stored := stmts_visits_stored (filed.bodies f (List.mem_filter.mp there).1)
  have origin := analyze_traced m (Analysis.of m limit).table f p made
  rw [DuplicatePoint.Traced, captured, if_pos rfl] at origin
  obtain ⟨e, info, visited, known, id, kind⟩ := origin
  obtain ⟨info', known', proper, found⟩ := stored _ visited
  obtain rfl : info = info' := Option.some.inj (known.symm.trans known')
  obtain ⟨depth, stmt, place, shown⟩ := visited_shown filed single there visited
  have number : m.expr? p.expr = some e := by rw [Module.expr?, ← id, if_neg proper, found]
  refine ⟨e, info, stmt, number, known, kind, shown.trans ?_⟩
  have taken : p.binding ∈
      (Rendering.of (Analysis.of m limit) f).verdict.captureClones info.id := by
    rw [rendering_verdict filed there, Verdict.captureClones]
    exact List.mem_map_of_mem (List.mem_filter.mpr ⟨made, by simp [captured, id]⟩)
  cases e with
  | absent => exact absurd known nofun
  | node i x y args inits body result =>
    obtain rfl := Option.some.inj known
    rw [Expr.render]
    refine (Doc.Among.of_mem ?_).mapped
    have copied := fun inner => mem_closureContent stmt inner taken
    simp [Rendering.exprContent, kind, copied]

end Duplicates

theorem resolve_loops (m : Module) (c : Collection) : (c.resolve m).1.loops = c.loops := by
  have keeps : SettlingKeeps m fun d _ => d.loops = c.loops :=
    ⟨fun same _ => same, fun same _ => same, fun same _ => same⟩
  exact keeps.looped rfl

namespace Sample

def nameAt (binding : Nat) (span : Document.Quad) : Document.Expr :=
  .node { kind := "ident", name := "s", binding, span, ty := "string" } .absent .absent [] [] .absent
    .absent

def keeping (name : String) (param kept line : Nat) (value : Document.Expr) : Document.Func :=
  { name, params := [param], result := "string", span := [line, 1, line + 3, 2]
    body := [
      .node { kind := "let", binding := kept, span := [line + 1, 3, line + 1, 20] } .absent value []
        .absent,
      .node { kind := "return", span := [line + 2, 3, line + 2, 12] } .absent
        (nameAt param [line + 2, 10, line + 2, 11]) [] .absent] }

def keepsakes : Document :=
  { file := "src/main.kl", module := "main", source := some ""
    bindings := [
      { id := 1, name := "s", kind := "param", ty := "string" },
      { id := 2, name := "t", ty := "string" },
      { id := 3, name := "s", kind := "param", ty := "string" },
      { id := 4, name := "show" }]
    funcs := [
      keeping "keep" 1 2 1 (nameAt 1 [2, 11, 2, 12]),
      keeping "hold" 3 4 5 (.node { kind := "closure", span := [6, 14, 6, 18] } .absent .absent [] []
        .absent (nameAt 3 [6, 17, 6, 18]))] }

theorem keepsakes_accepted : keepsakes.program?.isSome = true := by decide +kernel

def keepsakesProgram : Module := keepsakes.program?.get keepsakes_accepted

theorem keepsakes_checked :
    (∀ e ∈ keepsakesProgram.exprs, e.isForked = false) ∧
      (whole (Analysis.of keepsakesProgram)).isSound = true ∧
      (whole (Analysis.of keepsakesProgram)).size < range32 ∧
      (∃ fa ∈ (Analysis.of keepsakesProgram).funcs, ∃ p ∈ fa.verdict.points,
        p.capture = false ∧ p.span = Range.of 0 2 11 2 12) ∧
      ∃ fa ∈ (Analysis.of keepsakesProgram).funcs, ∃ p ∈ fa.verdict.points,
        p.capture = true ∧ ((keepsakesProgram.expr? p.expr).bind Expr.info?).map (·.span) =
          some (Range.of 0 6 14 6 18) := by
  decide +kernel

end Sample

end Tenure
