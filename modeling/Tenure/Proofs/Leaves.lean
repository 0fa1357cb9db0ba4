import Tenure.Proofs.Lookup
import Tenure.Proofs.Positions
import Tenure.Relay

/- Identifiers and literals from the backend's point of view. A record about the text of one is told
   at the place where the author wrote it. -/
namespace Tenure

open Backend (whole)

def Rendering.ownText (g : Rendering) (info : ExprInfo) : String :=
  if info.kind = .ident then
    if info.binding = 0 then info.name else g.bindingName info.binding
  else info.literal

theorem leaf_render {info : ExprInfo} (leaf : info.kind = .ident ∨ info.kind = .lit) (x y : Expr)
    (args : List Expr) (inits : List FieldInit) (body : Stmt) (result : Expr) (g : Rendering)
    (depth : Nat) (stmt : Range) (place : Place) :
    (Expr.node info x y args inits body result).render g depth stmt place =
      Doc.mapped info.span stmt
        [g.lead stmt info place, .text (g.ownText info), g.cloneMark stmt info.id] := by
  rw [Expr.render]
  rcases leaf with kind | kind
  · simp [Rendering.exprContent, Rendering.ownText, kind]
  · simp [Rendering.exprContent, Rendering.ownText, kind]

theorem own_chain (origin stmt : Range) (before behind : Doc) (own : String) (off b : Nat)
    (lo : off + before.size ≤ b) (hi : b < off + before.size + own.utf8ByteSize) :
    ((Doc.mapped origin stmt [before, .text own, behind]).entries off).filter (·.covers b) =
      [Mark.entry ⟨origin, stmt, false⟩ (.cat [before, .text own, behind]) off] := by
  have front : (before.entries off).filter (·.covers b) = [] := Doc.filter_covers_behind lo
  have rest : (behind.entries (off + before.size + own.utf8ByteSize)).filter (·.covers b) = [] :=
    Doc.filter_covers_before hi
  have covered :
      (Mark.entry ⟨origin, stmt, false⟩ (.cat [before, .text own, behind]) off).covers b = true :=
    Entry.covers_iff.mpr (by
      simp only [Mark.entry, Doc.size_cat_cons, Doc.size_text, Doc.size_cat_nil]
      omega)
  simp [Doc.mapped, front, rest, covered]

theorem own_segment {root : Doc} {o : Nat} {origin stmt : Range} {before behind : Doc} {own : String}
    (h : root.At o (Doc.mapped origin stmt [before, .text own, behind])) (filled : own ≠ "") :
    ∃ s ∈ SourceMap.flatten (root.entries 0), s.start ≤ o + before.size ∧
      o + before.size + own.utf8ByteSize ≤ s.stop ∧ s.origin = origin ∧ s.synthetic = false := by
  obtain ⟨outer, around⟩ := h.around_part 0
  have long := Nat.pos_of_ne_zero (mt String.utf8ByteSize_eq_zero_iff.mp filled)
  have same : ∀ b, o + before.size ≤ b → b < o + before.size + own.utf8ByteSize →
      SourceMap.creditOf (SourceMap.around (root.entries 0) b) = SourceMap.creditOf
        (Mark.entry ⟨origin, stmt, false⟩ (.cat [before, .text own, behind]) (0 + o) :: outer) := by
    intro b lo hi
    have chain := own_chain origin stmt before behind own (0 + o) b (by omega) (by omega)
    rw [Doc.around_entries, around b (by omega), chain]
    · rfl
    · simp only [Doc.mapped, Doc.size_marked, Doc.size_cat_cons, Doc.size_text]
      omega
  obtain ⟨s, hs, lo, hi, credit⟩ :=
    SourceMap.flatten_run (Doc.entries_wellNested root 0) (by omega) same
  exact ⟨s, hs, lo, hi, congrArg Credit.origin credit, congrArg Credit.synthetic credit⟩

theorem header_broken (m : Module) :
    '\n' ∈ (Backend.header m).flat.toList ∧ '/' ∈ (Backend.header m).flat.toList := by
  have last : '\n' ∈ Backend.prologue.toList := by decide
  simp [Backend.header, last]

theorem marked_behind_header {a : Analysis} {o : Nat} {m : Mark} {d : Doc}
    (h : (whole a).At o (.marked m d)) :
    ∃ before rest, (whole a).flat = before ++ d.flat ++ rest ∧ before.utf8ByteSize = o ∧
      '\n' ∈ before.toList ∧ '/' ∈ before.toList := by
  cases h with
  | head h =>
    cases h with
    | head h => exact absurd h Doc.no_mark_in_text
    | tail h =>
      cases h with
      | head h => exact absurd h Doc.no_mark_in_text
      | tail h => exact absurd h Doc.no_mark_in_nil
  | @tail _ _ _ p h =>
    obtain ⟨before, rest, text, place⟩ := h.text_split
    rw [Doc.flat_marked] at text
    refine ⟨(Backend.header a.module).flat ++ before, rest, ?_, ?_, ?_⟩
    · rw [whole, Doc.flat_cat_cons, text]
      simp only [String.append_assoc]
    · rw [String.utf8ByteSize_append, Doc.flat_size, place]
    · have lead := header_broken a.module
      simp [lead]

def RawSpan.ofText (before own : String) : RawSpan :=
  let start := Pos.after before.toList
  let stop := Pos.after (before ++ own).toList
  ⟨start.line, start.col, stop.line, stop.col⟩

theorem ofText_known (before own : String) : (RawSpan.ofText before own).isZero = false := by
  have := after_line before.toList
  rw [RawSpan.isZero, beq_eq_false_iff_ne]
  intro zero
  have line := congrArg RawSpan.line zero
  simp only [RawSpan.ofText, RawSpan.zero] at line
  omega

namespace Relay

section Start

variable {catalog : Catalog} {files : FileSet} {u : Generated} {limit : Int} {d : RawDiagnostic}

theorem start_file :
    ∃ f, (start catalog files u limit).files.get? (start catalog files u limit).textFile = some f ∧
      f.content = Bytes.ofString u.text :=
  ⟨⟨FileSet.normalPath u.file, Bytes.ofString u.text, { isVirtual := true, isGenerated := true }⟩,
    by simp [start, FileSet.addGenerated, FileSet.add, FileSet.get?], rfl⟩

theorem locate_text {m : SourceMap} (map : u.map = some m) {before own rest : String}
    (text : u.text = before ++ own ++ rest) (fits : u.text.utf8ByteSize < range32)
    (broken : '\n' ∈ before.toList ∧ '/' ∈ before.toList) (near : isForeign d.file = false)
    (span : d.span = RawSpan.ofText before own) {r : Resolved}
    (found : m.lookup before.utf8ByteSize (before.utf8ByteSize + own.utf8ByteSize) = some r) :
    (start catalog files u limit).locate d = r := by
  obtain ⟨f, file, content⟩ := @start_file catalog files u limit
  have size : f.size < range32 := by rwa [File.size, content, Bytes.ofString_length]
  rw [text] at content
  have bytes := spanOfChars_text file content size broken.1 broken.2 (by decide)
  have unit : (start catalog files u limit).unit = u := rfl
  rw [locate, unit, map]
  simp only [span, ofText_known, near, Bool.or_self, Bool.false_eq_true, if_false]
  simp only [RawSpan.ofText, bytes, found, Option.getD_some]

def said (d : RawDiagnostic) (place : Range) : List Note :=
  ((if d.label.isEmpty then [] else [d.label]) ++ d.children).map (⟨place, ·⟩)

variable {r : Relay}

/-- A record that points to what the author wrote is told there. No note about inserted code is
added to what the record says. -/
theorem tell_written {place stmt : Range} (here : r.locate d = { range := place, stmt }) :
    (r.tell d).primary = place ∧ (r.tell d).approximate = false ∧
      (r.tell d).notes = if (r.catalog.match? d).isSome then [] else said d place := by
  unfold tell
  rw [here]
  cases r.catalog.match? d with
  | none => simp [said]
  | some m => simp

theorem tellAll_single (alone : r.records = [d]) : r.tellAll = [r.tell d] := by
  have added : ({ limit := r.limit } : Bag).add (r.tell d) = { items := [r.tell d], limit := r.limit } := by
    have room : ({ limit := r.limit } : Bag).isFull = false := by simp [Bag.isFull]
    simp [Bag.add, room]
  have gathered : (r.gather { bag := { limit := r.limit } } d).bag =
      { items := [r.tell d], limit := r.limit } := by
    unfold gather
    dsimp only
    split
    · simp [DedupReporter.report, added]
    · simp [added]
  simp [tellAll, alone, gathered, Bag.sort]

theorem recount_single (idle : r.phase = .idle) (d : RawDiagnostic) :
    ∃ received done, r.receive [d] = .ok received ∧ received.recount = .ok done ∧
      done.told = [r.tell d] := by
  refine ⟨{ r with records := [d], phase := .received }, _, by rw [receive, idle], rfl, ?_⟩
  exact tellAll_single rfl

end Start

end Relay

section Emitted

variable {g : Rendering} {depth : Nat} {s : Stmt}

theorem line_written {ss : List Stmt} (h : s ∈ ss) (there : s.info?.isSome = true) :
    s.render g depth ∈ Stmt.renderLines g depth ss := by
  induction ss with
  | nil => simp at h
  | cons t ts ih =>
    rw [Stmt.renderLines]
    rcases List.mem_cons.mp h with rfl | later
    · simp [there]
    · split
      · simp [ih later]
      · exact ih later

theorem body_written {a : Analysis} {f : FuncDecl} (free : f ∈ Layout.free a.module) (h : s ∈ f.body)
    (there : s.info?.isSome = true) :
    ∃ o, (whole a).At o (s.render (Rendering.of a f) 1) := by
  have piece : Piece.func f 0 ∈ a.module.layout :=
    List.mem_append_right _ (List.mem_flatMap.mpr ⟨f, free, by simp⟩)
  have line : s.render (Rendering.of a f) 1 ∈ Stmt.renderLines (Rendering.of a f) 1 f.body :=
    line_written h there
  obtain ⟨o, func⟩ : ∃ o, (whole a).At o (f.render (Rendering.of a f) 0) :=
    Doc.At.of_mem (List.mem_cons_of_mem _ (List.mem_map.mpr ⟨_, piece, rfl⟩))
  obtain ⟨p, block⟩ : ∃ p, (f.declaration (Rendering.of a f) 0).At p
      (blockDoc 0 (Stmt.renderLines (Rendering.of a f) 1 f.body)) := Doc.At.of_mapped (by simp)
  obtain ⟨q, last⟩ : ∃ q, (blockDoc 0 (Stmt.renderLines (Rendering.of a f) 1 f.body)).At q
      (s.render (Rendering.of a f) 1) := Doc.At.of_mem (by simp [line])
  exact ⟨_, func.trans (.tail (.head (block.trans last)))⟩

end Emitted

/-- A record about the text of an identifier or literal, in lines and characters, is told exactly
where the author wrote it, whatever text stands around it and whatever was inserted next to it. -/
theorem leaf_told_exactly {a : Analysis} {file : String} {u : Generated}
    (made : a.generate file = some u) {info : ExprInfo}
    (leaf : info.kind = .ident ∨ info.kind = .lit) {x y : Expr} {args : List Expr}
    {inits : List FieldInit} {body : Stmt} {result : Expr} {g : Rendering} {depth : Nat}
    {stmt : Range} {place : Place} {o : Nat}
    (emitted : (whole a).At o
      ((Expr.node info x y args inits body result).render g depth stmt place))
    (filled : g.ownText info ≠ "") :
    ∃ before rest, u.text = before ++ g.ownText info ++ rest ∧
      before.utf8ByteSize = o + (g.lead stmt info place).size ∧
      (u.text.utf8ByteSize < range32 → ∀ (catalog : Catalog) (files : FileSet) (limit : Int) (d : RawDiagnostic),
        Relay.isForeign d.file = false → d.span = RawSpan.ofText before (g.ownText info) →
        let told := (Relay.start catalog files u limit).tell d
        told.primary = info.span ∧ told.approximate = false ∧
          told.notes = (if (catalog.match? d).isSome then [] else Relay.said d info.span) ∧
          ∃ received done, (Relay.start catalog files u limit).receive [d] = .ok received ∧
            received.recount = .ok done ∧ done.told = [told]) := by
  rw [leaf_render leaf] at emitted
  obtain ⟨-, text, map⟩ := generate_spec made
  obtain ⟨s, hs, lo, hi, origin, written⟩ := own_segment emitted filled
  obtain ⟨front, behind, split, start, broken⟩ := marked_behind_header emitted
  let before := front ++ (g.lead stmt info place).flat
  have parts : u.text = before ++ g.ownText info ++ ((g.cloneMark stmt info.id).flat ++ behind) := by
    simp [text, split, before, String.append_assoc]
  have offset : before.utf8ByteSize = o + (g.lead stmt info place).size := by
    rw [String.utf8ByteSize_append, Doc.flat_size, start]
  have long := Nat.pos_of_ne_zero (mt String.utf8ByteSize_eq_zero_iff.mp filled)
  refine ⟨before, _, parts, offset, ?_⟩
  intro small catalog files limit d near span
  have words : (whole a).InWords 0 := Doc.inWords_of_lt (by rwa [Nat.zero_add, ← Doc.flat_size, ← text])
  rw [words.entries_shift] at map
  have found : (SourceMap.build a.module.name (Backend.fileName a.module file)
      ((whole a).entries 0)).lookup before.utf8ByteSize
        (before.utf8ByteSize + (g.ownText info).utf8ByteSize) =
      some { range := s.origin, stmt := s.stmt } :=
    SourceMap.lookup_written (fun s hs => SourceMap.flatten_filled hs)
      (SourceMap.flatten_pairwise _) hs written (by omega) (by omega) (by omega)
  have here : (Relay.start catalog files u limit).locate d =
      { range := s.origin, stmt := s.stmt } :=
    Relay.locate_text map parts small (by simp [before, broken]) near span found
  rw [origin] at here
  obtain ⟨primary, precise, notes⟩ := Relay.tell_written here
  exact ⟨primary, precise, notes, Relay.recount_single rfl d⟩

theorem greeting_name_told_exactly :
    ∃ u before rest, (Analysis.of Sample.greeting).generate = some u ∧
      u.text = before ++ "name" ++ rest ∧
      ∀ (catalog : Catalog) (files : FileSet) (limit : Int) (d : RawDiagnostic),
        Relay.isForeign d.file = false → d.span = RawSpan.ofText before "name" →
        ((Relay.start catalog files u limit).tell d).primary = Range.of 0 6 17 6 21 ∧
          ((Relay.start catalog files u limit).tell d).approximate = false := by
  let g := Rendering.of (Analysis.of Sample.greeting) Sample.greet
  obtain ⟨u, made, small⟩ := Sample.greeting_generated
  obtain ⟨o, line⟩ : ∃ o, (whole (Analysis.of Sample.greeting)).At o (Sample.returned.render g 1) :=
    body_written (by simp [Layout.free, Layout.written, Analysis.of, Sample.greeting, Sample.greet])
      (by simp [Sample.greet]) rfl
  have used : (Sample.returned.render g 1).At _
      ((Sample.useOfName 3 (Range.of 0 6 17 6 21)).render g 1 (Range.of 0 6 3 6 21) .plain) :=
    .marked (.tail (.head (.marked (.tail (.tail (.tail (.tail (.head (.here _)))))))))
  have own : g.ownText { Sketch.blank .ident .string with
      id := 3, span := Range.of 0 6 17 6 21, name := "name", binding := 1 } = "name" := by
    decide +kernel
  obtain ⟨before, rest, text, -, told⟩ :=
    leaf_told_exactly made (Or.inl rfl) (line.trans used) (by rw [own]; decide)
  rw [own] at text
  refine ⟨u, before, rest, made, text, ?_⟩
  intro catalog files limit d near span
  have exactly := told small catalog files limit d near (by rw [own]; exact span)
  exact ⟨exactly.1, exactly.2.1⟩

end Tenure
