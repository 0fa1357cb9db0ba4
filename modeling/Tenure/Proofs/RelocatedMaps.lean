import Mathlib.Logic.Equiv.Basic
import Tenure.Proofs.Arena
import Tenure.Proofs.Content
import Tenure.Proofs.RelocatedText
import Tenure.Proofs.Segments
import Tenure.Proofs.Spans

/- The source map of a program under another file number. Segments are joined where their ranges are
   equal, so the numbers of different files have to stay different. -/
namespace Tenure

open Backend (whole)

namespace SourceMap

def Pending.rename (ρ : Nat → Nat) (p : Pending) : Pending :=
  { p with origin := p.origin.rename ρ, anchor := p.anchor.rename ρ, stmt := p.stmt.rename ρ }

def Sweep.rename (ρ : Nat → Nat) (s : Sweep) : Sweep :=
  { s with segments := s.segments.map (Segment.rename ρ), pending := s.pending.map (Pending.rename ρ) }

section Flatten

variable {ρ : Nat → Nat} (injective : Function.Injective ρ)

theorem ordered_respan (τ : Range → Range) (es : List Entry) :
    ordered (es.map (Entry.respan τ)) = (ordered es).map (Entry.respan τ) := by
  unfold ordered
  rw [List.filter_map, ← List.map_reverse]
  have order (d e : Entry) : outerFirst d e = outerFirst (d.respan τ) (e.respan τ) := rfl
  exact (List.map_mergeSort fun d _ e _ => order d e).symm

theorem inherit_rename (e : Entry) (parent : Option Pending) :
    inherit (e.respan (Range.rename ρ)) (parent.map (Pending.rename ρ)) =
      (inherit e parent).rename ρ := by
  cases parent with
  | none =>
    cases known : e.origin.isZero <;> simp [inherit, Entry.respan, Pending.rename, known]
    rfl
  | some parent =>
    have stmt : (if (e.respan (Range.rename ρ)).stmt.isZero then (parent.rename ρ).stmt
          else (e.respan (Range.rename ρ)).stmt) =
        (if e.stmt.isZero then parent.stmt else e.stmt).rename ρ :=
      (apply_ite (Range.rename ρ) _ _ _).symm
    have anchor : (if (e.respan (Range.rename ρ)).origin.isZero then (parent.rename ρ).anchor
          else (e.respan (Range.rename ρ)).origin) =
        (if e.origin.isZero then parent.anchor else e.origin).rename ρ :=
      (apply_ite (Range.rename ρ) _ _ _).symm
    rw [Option.map_some, inherit, stmt, anchor, Range.rename_isZero, ← apply_ite (Range.rename ρ)]
    rfl

include injective

theorem extends_rename (s : Segment) (p : Pending) (start : Nat) :
    extends_ (s.rename ρ) (p.rename ρ) start = extends_ s p start := by
  have same (r t : Range) : (r.rename ρ == t.rename ρ) = (r == t) := by
    rw [Bool.eq_iff_iff, beq_iff_eq, beq_iff_eq]
    exact Range.rename_eq_iff fun h => injective h
  unfold extends_ Segment.rename Pending.rename
  simp only [same]

theorem emit_rename (segments : List Segment) (p : Pending) (start stop : Nat) :
    emit (segments.map (Segment.rename ρ)) (p.rename ρ) start stop =
      (emit segments p start stop).map (Segment.rename ρ) := by
  unfold emit
  split
  · rfl
  cases segments with
  | nil => rfl
  | cons last before =>
    rw [List.map_cons]
    dsimp only
    rw [extends_rename injective, apply_ite (List.map (Segment.rename ρ))]
    rfl

theorem close_rename (done : Pending → Bool) (blind : ∀ p, done (p.rename ρ) = done p)
    (segments : List Segment) (place : Nat) (pending : List Pending) :
    close done (segments.map (Segment.rename ρ)) place (pending.map (Pending.rename ρ)) =
      (close done segments place pending).rename ρ := by
  induction pending generalizing segments place with
  | nil => rfl
  | cons p ps ih =>
    rw [List.map_cons, close, close, blind]
    split
    · rw [← ih, ← emit_rename injective]
      rfl
    · rfl

theorem step_rename (s : Sweep) (e : Entry) :
    step (s.rename ρ) (e.respan (Range.rename ρ)) = (step s e).rename ρ := by
  have closed : close (fun p => p.stop ≤ (e.respan (Range.rename ρ)).start) (s.rename ρ).segments
      (s.rename ρ).place (s.rename ρ).pending =
        (close (fun p => p.stop ≤ e.start) s.segments s.place s.pending).rename ρ :=
    close_rename injective _ (fun _ => rfl) s.segments s.place s.pending
  unfold step
  rw [closed]
  generalize close (fun p => p.stop ≤ e.start) s.segments s.place s.pending = t
  obtain ⟨segments, pending, place⟩ := t
  cases pending with
  | nil =>
    have fresh := inherit_rename (ρ := ρ) e none
    simp only [Sweep.rename, List.map_nil, List.map_cons, List.head?_nil, ← fresh]
    rfl
  | cons parent outer =>
    have fresh := inherit_rename (ρ := ρ) e (some parent)
    have emitted := emit_rename injective segments parent place e.start
    simp only [Sweep.rename, List.map_cons, List.head?_cons, ← fresh, ← emitted]
    rfl

theorem flatten_rename (es : List Entry) :
    flatten (es.map (Entry.respan (Range.rename ρ))) = (flatten es).map (Segment.rename ρ) := by
  have steps (es : List Entry) (s : Sweep) :
      (es.map (Entry.respan (Range.rename ρ))).foldl step (s.rename ρ) = (es.foldl step s).rename ρ := by
    rw [List.foldl_map]
    exact List.foldl_hom (Sweep.rename ρ) (step_rename injective)
  have opened := steps (ordered es) {}
  have closed := close_rename injective (fun _ => true) (fun _ => rfl)
    ((ordered es).foldl step {}).segments ((ordered es).foldl step {}).place
    ((ordered es).foldl step {}).pending
  unfold flatten sweep
  rw [ordered_respan, List.map_reverse]
  rw [show Sweep.rename ρ {} = {} from rfl] at opened
  rw [opened]
  exact congrArg (fun s : Sweep => s.segments.reverse) closed

end Flatten

end SourceMap

def Generated.rename (ρ : Nat → Nat) (u : Generated) : Generated :=
  { u with map := u.map.map (SourceMap.rename ρ) }

theorem generate_rename {ρ : Nat → Nat} (injective : Function.Injective ρ) (m : Module) (file : Nat)
    (name : String) :
    (Analysis.of (m.respan (Range.rename ρ) file)).generate name =
      ((Analysis.of m).generate name).map (Generated.rename ρ) := by
  have moved : (((whole (Analysis.of m)).entries 0).map (Entry.respan (Range.rename ρ))).map
      (Entry.shift 0) =
        (((whole (Analysis.of m)).entries 0).map (Entry.shift 0)).map (Entry.respan (Range.rename ρ)) := by
    rw [List.map_map, List.map_map]
    rfl
  simp only [generate_eq, whole_respan, Doc.isSound_respan, Doc.isStack_respan, Doc.flat_respan,
    Doc.entries_respan, apply_ite (Option.map (Generated.rename ρ))]
  unfold SourceMap.build
  rw [moved, SourceMap.flatten_rename injective]
  rfl

/-! ### Statements of marks -/

def Stmt.isLocated (s : Stmt) : Bool := (s.info?.map fun info => !info.span.isZero).getD true

/-- Every declaration and every statement has a place. -/
def Module.isLocated (m : Module) : Bool :=
  m.structs.all (fun s => !s.span.isZero) && m.funcs.all (fun f => !f.span.isZero) &&
    m.stmts.toList.all Stmt.isLocated

def Doc.Named (d : Doc) : Prop := ∀ off, ∀ e ∈ d.entries off, e.stmt.isZero = false

namespace Doc.Named

theorem text (s : String) : Doc.Named (.text s) := by
  intro off e mem
  simp at mem

theorem fault : Doc.Named .fault := by
  intro off e mem
  simp at mem

theorem cat {ds : List Doc} (h : ∀ d ∈ ds, d.Named) : Doc.Named (.cat ds) := by
  induction ds with
  | nil =>
    intro off e mem
    simp at mem
  | cons d ds ih =>
    rw [List.forall_mem_cons] at h
    intro off e mem
    rw [entries_cat_cons, List.mem_append] at mem
    rcases mem with first | later
    · exact h.1 off e first
    · exact ih h.2 _ e later

variable {stmt : Range} (known : stmt.isZero = false)

include known

theorem marked {origin : Range} {synthetic : Bool} {d : Doc} (h : d.Named) :
    Doc.Named (.marked ⟨origin, stmt, synthetic⟩ d) := by
  intro off e mem
  rw [entries_marked, List.mem_append, List.mem_singleton] at mem
  rcases mem with inner | rfl
  · exact h off e inner
  · exact known

theorem mapped {origin : Range} {ds : List Doc} (h : ∀ d ∈ ds, d.Named) :
    Doc.Named (Doc.mapped origin stmt ds) :=
  marked known (cat h)

theorem closed : Doc.Closed Doc.Named stmt where
  text := text
  cat _ := cat
  synthetic s _ := marked known (text s)

end Doc.Named

section Named

variable {a : Document.Arena} {g : Rendering}

def Writing.IsPlaced (a : Document.Arena) : Writing → Prop
  | .expr _ r e _ => r.isZero = false ∧ e.Filed a
  | .stmt _ s => s.Filed a

variable (located : ∀ s ∈ a.stmts.toList, s.isLocated = true)

include located

theorem placed_owner {w : Writing} (placed : w.IsPlaced a) (there : w.node.isAbsent = false) :
    w.owner.isZero = false := by
  rcases w with _ | ⟨_, _ | info⟩
  · exact placed.1
  · cases there
  · have member := Array.mem_toList_iff.mpr (Array.mem_of_getElem? placed.2.1)
    exact Bool.not_eq_true' _ ▸ located _ member

theorem placed_named (g : Rendering) : Upholds g (fun _ => Doc.Named) (Writing.IsPlaced a) where
  text _ := .text
  keeps {w} placed there := by
    have known := placed_owner located placed there
    have closed := Doc.Named.closed known
    refine ⟨closed, fun _ _ content => .mapped known, w.adapts closed .fault, ?_⟩
    intro content doc kept r _
    rw [doc]
    exact .mapped known kept
  part {w p} placed part := by
    have known := placed_owner located placed part.there
    have filed : w.node.Filed a := by
      cases w with
      | expr => exact placed.2
      | stmt => exact placed
    have inner := filed.parts p.node part.node_mem
    cases p with
    | expr => exact ⟨part.isIn ▸ known, inner⟩
    | stmt => exact inner

theorem lines_named {depth : Nat} {ss : List Stmt} (filed : Stmt.AllFiled a ss) :
    ∀ d ∈ Stmt.renderLines g depth ss, d.Named :=
  (placed_named located g).lines (r := Range.zero) fun s member => Stmt.allFiled_iff.mp filed s member

theorem func_named {f : FuncDecl} (known : f.span.isZero = false) (filed : Stmt.AllFiled a f.body) (depth : Nat) :
    Doc.Named (f.declaration g depth) := by
  obtain ⟨content, doc, kept⟩ := (Doc.Named.closed known).funcContent g .fault
    (fun _ _ _ _ _ => .mapped known) (lines_named located filed)
  rw [doc]
  exact .mapped known kept

end Named

theorem struct_named {s : StructDecl} (known : s.span.isZero = false) : Doc.Named s.declaration := by
  obtain ⟨content, doc, kept⟩ := (Doc.Named.closed known).structContent fun _ _ _ => .mapped known
  rw [doc]
  exact .mapped known kept

theorem whole_named {m : Module} (filed : m.Filed) (located : m.isLocated = true) :
    Doc.Named (Backend.whole (Analysis.of m)) := by
  simp only [Module.isLocated, Bool.and_eq_true, List.all_eq_true, Bool.not_eq_true'] at located
  obtain ⟨⟨structs, funcs⟩, stmts⟩ := located
  refine whole_kept .text (fun _ => .cat) (fun s placed => ?_) fun f depth placed => ?_
  · exact struct_named (structs s (layout_of m _ placed))
  · have declared := layout_of m _ placed
    exact func_named (a := ⟨m.exprs, m.stmts⟩) stmts (funcs f declared) (filed.bodies f declared) depth

/-! ### The file of a map -/

structure Entry.Placed (file : Nat) (e : Entry) : Prop where
  origin : e.origin.file = file
  stmt : e.stmt.file = file
  known : e.stmt.isZero = false

structure Segment.Placed (file : Nat) (s : Segment) : Prop where
  origin : s.origin.file = file
  anchor : s.anchor.file = file
  stmt : s.stmt.file = file
  anchorKnown : s.anchor.isZero = false
  stmtKnown : s.stmt.isZero = false

theorem flatten_placed {file : Nat} {entries : List Entry} (placed : ∀ e ∈ entries, e.Placed file) :
    ∀ s ∈ SourceMap.flatten entries, s.Placed file := by
  intro s mem
  suffices credit : s.credit.origin.file = file ∧ s.credit.anchor.file = file ∧
      s.credit.stmt.file = file ∧ s.credit.anchor.isZero = false ∧ s.credit.stmt.isZero = false by
    exact ⟨credit.1, credit.2.1, credit.2.2.1, credit.2.2.2.1, credit.2.2.2.2⟩
  refine SourceMap.flatten_credits (P := fun c => c.origin.file = file ∧ c.anchor.file = file ∧
    c.stmt.file = file ∧ c.anchor.isZero = false ∧ c.stmt.isZero = false) ?_ mem
  intro e member parent around
  obtain ⟨origin, stmt, known⟩ := placed e member
  have zero : Range.zero.isZero = true := rfl
  cases parent with
  | none =>
    cases here : e.origin.isZero <;>
      simp [SourceMap.inherit, SourceMap.Pending.credit, here, origin, stmt, known, zero]
  | some p =>
    obtain ⟨-, anchor, -, there, -⟩ := around p rfl
    simp only [SourceMap.Pending.credit] at anchor there
    cases here : e.origin.isZero <;>
      simp [SourceMap.inherit, SourceMap.Pending.credit, here, origin, stmt, known, anchor, there]

theorem generated_placed {file : Nat} {d : Document} {m : Module} {name : String} {u : Generated}
    {map : SourceMap} (accepted : d.acceptIn file = .ok m) (located : m.isLocated = true)
    (made : (Analysis.of m).generate name = some u) (mapped : u.map = some map) :
    ∀ s ∈ map.segments, s.Placed file := by
  obtain ⟨-, -, built⟩ := generate_spec made
  obtain rfl := Option.some.inj (mapped.symm.trans built)
  suffices placed : ∀ e ∈ (whole (Analysis.of m)).entries 0, e.Placed file by
    refine flatten_placed (List.forall_mem_map.mpr fun e mem => ?_)
    exact ⟨(placed e mem).origin, (placed e mem).stmt, (placed e mem).known⟩
  -- Giving every file the number `file` changes nothing.
  have same : m.respan (Range.rename fun _ => file) file = m := by
    have again := Document.acceptIn_rename (fun _ => file) file d
    rw [accepted] at again
    exact (Except.ok.inj again).symm
  have whole := whole_respan (τ := Range.rename fun _ => file) m file
  rw [same] at whole
  intro e mem
  have known := whole_named (Document.acceptIn_filed accepted) located 0 e mem
  rw [whole, Doc.entries_respan] at mem
  obtain ⟨e, -, rfl⟩ := List.mem_map.mp mem
  exact ⟨rfl, rfl, known⟩

end Tenure
