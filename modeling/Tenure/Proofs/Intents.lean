import Tenure.Proofs.Modes
import Tenure.Proofs.RelocatedText
import Tenure.Proofs.Tellings

/- What declaring a binding mutable changes. The flag is asked about in one place only, where a binding
   is settled that is modified without it, and the answer is a finding. So the module goes through the
   same rounds and gives the same text, and the findings are the same but for those that ask for the
   flag. -/
namespace Tenure

def Binding.intended (yes : Bool) (b : Binding) : Binding := { b with mutable := yes || b.mutable }

def Module.declareMutable (m : Module) (b : Nat) : Module :=
  { m with
    bindings := if b = 0 then m.bindings else m.bindings.modify (b - 1) (Binding.intended true) }

theorem declareMutable_binding (m : Module) (b c : Nat) :
    (m.declareMutable b).binding? c = (m.binding? c).map (Binding.intended (c == b)) := by
  have same : Binding.intended false = id := by
    funext bd
    rw [Binding.intended, Bool.false_or]
    rfl
  unfold Module.binding? Module.declareMutable
  by_cases missing : c = 0
  · rw [if_pos missing, if_pos missing, Option.map_none]
  · rw [if_neg missing, if_neg missing]
    dsimp only
    by_cases zero : b = 0
    · rw [if_pos zero, zero, beq_eq_false_iff_ne.mpr missing, same, Option.map_id]
      rfl
    · rw [if_neg zero, Array.getElem?_modify]
      by_cases own : c = b
      · rw [own, if_pos rfl, beq_self_eq_true]
      · have apart : b - 1 ≠ c - 1 := by omega
        rw [if_neg apart, beq_eq_false_iff_ne.mpr own, same, Option.map_id]
        rfl

/-! ### Findings -/

structure Asks (m : Module) (c : Nat) (d : Diagnostic) (bd : Binding) (e : Event) : Prop where
  known : m.binding? c = some bd
  modifies : e.isMutation = true
  refused : bd.allows e = false
  report : d = bd.immutable e

def Spares (b : Nat) (r : Nat × Diagnostic) : Bool := !(r.1 == b && r.2.code == .immutableAssign)

/-- The second list is the first one without the findings that ask for the flag of `b`. Each finding
stands with the number of the binding it is about. -/
def Lighter (m : Module) (b : Nat) (before after : List Diagnostic) : Prop :=
  ∃ told : List (Nat × Diagnostic), before = told.map Prod.snd ∧
    after = (told.filter (Spares b)).map Prod.snd ∧
    ∀ r ∈ told, r.2.code = .immutableAssign → ∃ bd e, Asks m r.1 r.2 bd e

section Lighter

variable {m : Module} {b : Nat}

theorem Lighter.nil : Lighter m b [] [] := ⟨[], rfl, rfl, nofun⟩

theorem Lighter.append {as bs cs ds : List Diagnostic} (first : Lighter m b as cs)
    (second : Lighter m b bs ds) : Lighter m b (as ++ bs) (cs ++ ds) := by
  obtain ⟨xs, rfl, rfl, asked⟩ := first
  obtain ⟨ys, rfl, rfl, asked'⟩ := second
  refine ⟨xs ++ ys, (List.map_append ..).symm, ?_, ?_⟩
  · rw [List.filter_append, List.map_append]
  · intro r member
    exact (List.mem_append.mp member).elim (asked r) (asked' r)

theorem Lighter.of_binding (c : Nat) {ds : List Diagnostic}
    (asked : ∀ d ∈ ds, d.code = .immutableAssign → ∃ bd e, Asks m c d bd e) :
    Lighter m b ds (ds.filter fun d => Spares b (c, d)) := by
  refine ⟨ds.map (Prod.mk c), ?_, ?_, ?_⟩
  · rw [List.map_map]
    exact (List.map_id _).symm
  · rw [List.filter_map, List.map_map]
    exact (List.map_id _).symm
  · intro r member
    obtain ⟨d, there, rfl⟩ := List.mem_map.mp member
    exact asked d there

theorem Lighter.others {ds : List Diagnostic} (others : ∀ d ∈ ds, d.code ≠ .immutableAssign) :
    Lighter m b ds ds := by
  have lighter : Lighter m b ds (ds.filter fun d => Spares b (0, d)) :=
    .of_binding 0 fun d there asks => absurd asks (others d there)
  have kept : (ds.filter fun d => Spares b (0, d)) = ds := by
    rw [List.filter_eq_self]
    intro d there
    simp [Spares, others d there]
  rwa [kept] at lighter

theorem Lighter.flatMap {α : Type} {R : α → α → Prop} {fs gs : List α} {found : α → List Diagnostic}
    (each : ∀ f g, R f g → Lighter m b (found f) (found g)) (all : List.Forall₂ R fs gs) :
    Lighter m b (fs.flatMap found) (gs.flatMap found) := by
  induction all with
  | nil => exact .nil
  | cons head _ ih =>
    rw [List.flatMap_cons, List.flatMap_cons]
    exact (each _ _ head).append ih

end Lighter

section Order

variable {α : Type} {le : α → α → Bool} (trans : ∀ a b c, le a b → le b c → le a c)
  (total : ∀ a b, le a b || le b a)

theorem cut_unique {a : α} {xs ys zs ws : List α} (same : xs ++ ys = zs ++ ws)
    (front : ∀ x ∈ xs, le a x = false) (back : ∀ y ∈ ys, le a y = true)
    (front' : ∀ z ∈ zs, le a z = false) (back' : ∀ w ∈ ws, le a w = true) : xs = zs ∧ ys = ws := by
  have drop : ∀ {as bs : List α}, (∀ x ∈ as, le a x = false) → (∀ y ∈ bs, le a y = true) →
      (as ++ bs).filter (fun x => !le a x) = as ∧ (as ++ bs).filter (le a) = bs := by
    intro as bs first second
    rw [List.filter_append, List.filter_append, List.filter_eq_self.mpr (by simpa using first),
      List.filter_eq_nil_iff.mpr (by simpa using second), List.append_nil,
      List.filter_eq_nil_iff.mpr (by simpa using first), List.filter_eq_self.mpr (by simpa using second)]
    exact ⟨rfl, rfl⟩
  obtain ⟨left, right⟩ := drop front back
  obtain ⟨left', right'⟩ := drop front' back'
  rw [same] at left right
  exact ⟨left.symm.trans left', right.symm.trans right'⟩

include trans total

theorem filter_mergeSort (p : α → Bool) (l : List α) :
    (l.mergeSort le).filter p = (l.filter p).mergeSort le := by
  induction l with
  | nil => simp
  | cons a l ih =>
    obtain ⟨xs, ys, whole, rest, front⟩ := List.mergeSort_cons trans total a l
    have sorted := List.pairwise_mergeSort trans total (a :: l)
    rw [whole, List.pairwise_append, List.pairwise_cons] at sorted
    rw [rest, List.filter_append] at ih
    by_cases kept : p a = true
    · obtain ⟨zs, ws, whole', rest', front'⟩ := List.mergeSort_cons trans total a (l.filter p)
      have sorted' := List.pairwise_mergeSort trans total (a :: l.filter p)
      rw [whole', List.pairwise_append, List.pairwise_cons] at sorted'
      obtain ⟨left, right⟩ := @cut_unique α le a _ _ _ _ (ih.trans rest')
        (fun x there => by simpa using front x (List.mem_filter.mp there).1)
        (fun y there => sorted.2.1.1 y (List.mem_filter.mp there).1)
        (fun z there => by simpa using front' z there) sorted'.2.1.1
      rw [whole, List.filter_append, List.filter_cons_of_pos kept, List.filter_cons_of_pos kept, whole',
        left, right]
    · rw [whole, List.filter_append, List.filter_cons_of_neg kept, List.filter_cons_of_neg kept, ih]

end Order

variable {m : Module} {bd : Binding} {es : List Event}

theorem Lighter.sorted {b : Nat} {before after : List Diagnostic}
    (lighter : Lighter m b before after) :
    Lighter m b (before.mergeSort fun d e => !e.primary.before d.primary)
      (after.mergeSort fun d e => !e.primary.before d.primary) := by
  obtain ⟨told, rfl, rfl, asked⟩ := lighter
  have trans : ∀ x y z : Nat × Diagnostic, !y.2.primary.before x.2.primary →
      !z.2.primary.before y.2.primary → !z.2.primary.before x.2.primary := by
    intro x y z first second
    rw [Bool.not_eq_true', Bool.eq_false_iff] at first second ⊢
    intro behind
    rcases Range.before_or_eq_or_before y.2.primary z.2.primary with earlier | same | later
    · exact first (Range.before_trans earlier behind)
    · exact first (same ▸ behind)
    · exact second later
  have total : ∀ x y : Nat × Diagnostic,
      !y.2.primary.before x.2.primary || !x.2.primary.before y.2.primary := by
    intro x y
    rw [← Bool.not_and, Bool.not_eq_true', Bool.eq_false_iff, ne_eq, Bool.and_eq_true]
    exact fun both => Range.before_irrefl _ (Range.before_trans both.1 both.2)
  refine ⟨told.mergeSort fun x y => !y.2.primary.before x.2.primary, ?_, ?_, ?_⟩
  · exact (List.map_mergeSort (f := Prod.snd) fun _ _ _ _ => rfl).symm
  · rw [filter_mergeSort trans total]
    exact (List.map_mergeSort (f := Prod.snd) fun _ _ _ _ => rfl).symm
  · intro r member
    exact asked r ((List.mergeSort_perm _ _).mem_iff.mp member)

/-! ### Settling -/

theorem provisions_intended (yes : Bool) (bd : Binding) (declLoop : Nat) (es : List Event) :
    provisions (bd.intended yes) declLoop es = provisions bd declLoop es := by
  induction es with
  | nil => rfl
  | cons e es ih =>
    rw [provisions, provisions, ih]
    rfl

theorem provisions_code {declLoop : Nat} :
    ∀ d ∈ (provisions bd declLoop es).filterMap Provision.finding?, d.code ≠ .immutableAssign := by
  intro d found asks
  obtain ⟨provision, made, refused⟩ := List.mem_filterMap.mp found
  obtain ⟨-, e, later, -, rfl⟩ := mem_provisions made
  have code := (provide_finding refused).code
  rw [asks] at code
  rcases code with other | other <;> cases other

def Binding.illegal (bd : Binding) (es : List Event) : List Diagnostic :=
  ((es.find? fun e => e.isMutation && !bd.allows e).map bd.immutable).toList

theorem illegal_asks {c : Nat} (known : m.binding? c = some bd)
    : ∀ d ∈ bd.illegal es, ∃ e, Asks m c d bd e := by
  intro d found
  rw [Binding.illegal, Option.mem_toList, Option.map_eq_some_iff] at found
  obtain ⟨e, first, rfl⟩ := found
  have bad := List.find?_some first
  rw [Bool.and_eq_true, Bool.not_eq_true'] at bad
  exact ⟨e, known, bad.1, bad.2, rfl⟩

theorem illegal_intended (bd : Binding) (es : List Event) : (bd.intended true).illegal es = [] := by
  have none : es.find? (fun e => e.isMutation && !(bd.intended true).allows e) = none := by
    rw [List.find?_eq_none]
    simp [Binding.intended, Binding.allows]
  rw [Binding.illegal, none]
  rfl

theorem settle_parts (bd : Binding) (u : Usage) : ∃ asked rest : List Diagnostic,
    (asked = [] ∨ asked = bd.illegal u.events) ∧ (∀ d ∈ rest, d.code ≠ .immutableAssign) ∧
      (bd.settle u).findings = asked ++ rest ∧
      (bd.intended true).settle u = { bd.settle u with findings := rest } := by
  have conflicts : ∀ (x : Option Event) (problem advice : String),
      ∀ d ∈ (x.map fun e => bd.conflict e problem advice).toList, d.code ≠ .immutableAssign := by
    intro x problem advice d found
    rw [Option.mem_toList, Option.map_eq_some_iff] at found
    obtain ⟨e, -, rfl⟩ := found
    exact nofun
  have free := illegal_intended bd u.events
  have provided := provisions_intended true bd u.declLoop u.events
  have marker : (bd.intended true).marker = bd.marker := rfl
  have ty : (bd.intended true).ty = bd.ty := rfl
  unfold Binding.illegal at free
  unfold Binding.settle
  simp only [marker, ty, free, provided]
  cases bd.marker with
  | ref =>
    refine ⟨[], _, .inl rfl, ?_, rfl, rfl⟩
    intro d found
    exact (List.mem_append.mp found).elim (conflicts _ _ _ d) (conflicts _ _ _ d)
  | mutRef => exact ⟨[], _, .inl rfl, conflicts _ _ _, rfl, rfl⟩
  | none | owned =>
    dsimp only
    split
    · exact ⟨_, [], .inr rfl, nofun, (List.append_nil _).symm, rfl⟩
    · split
      · exact ⟨_, _, .inr rfl, provisions_code, rfl, rfl⟩
      · exact ⟨_, [], .inr rfl, nofun, (List.append_nil _).symm, rfl⟩

theorem settle_eased {c : Nat} (known : m.binding? c = some bd) (b : Nat) (u : Usage) :
    (bd.settle u).Moved id (Lighter m b) ((bd.intended (c == b)).settle u) := by
  have points : (bd.settle u).points = (bd.settle u).points.map (DuplicatePoint.respan id) :=
    (List.map_id _).symm
  obtain ⟨asked, rest, asks, others, findings, eased⟩ := settle_parts bd u
  have asking : ∀ d ∈ asked, ∃ e, Asks m c d bd e := by
    rcases asks with rfl | rfl
    · exact nofun
    · exact illegal_asks known
  have all : ∀ d ∈ asked ++ rest, d.code = .immutableAssign → ∃ bd e, Asks m c d bd e := by
    intro d found code
    rcases List.mem_append.mp found with new | old
    · exact ⟨bd, asking d new⟩
    · exact absurd code (others d old)
  have lighter := Lighter.of_binding (m := m) (b := b) c all
  cases own : c == b with
  | true =>
    have kept : ((asked ++ rest).filter fun d => Spares b (c, d)) = rest := by
      rw [List.filter_append, List.filter_eq_nil_iff.mpr, List.filter_eq_self.mpr, List.nil_append]
      · intro d found
        simp [Spares, others d found]
      · intro d found
        obtain ⟨e, asks⟩ := asking d found
        rw [asks.report]
        simp [Spares, own, Binding.immutable]
    rw [kept, ← findings] at lighter
    rw [eased]
    exact ⟨rfl, rfl, points, lighter⟩
  | false =>
    have kept : ((asked ++ rest).filter fun d => Spares b (c, d)) = asked ++ rest := by
      rw [List.filter_eq_self]
      intro d _
      simp [Spares, own]
    rw [kept, ← findings] at lighter
    have same : bd.intended false = bd := by
      rw [Binding.intended, Bool.false_or]
    rw [same]
    exact ⟨rfl, rfl, points, lighter⟩

structure Verdict.Eased (m : Module) (b : Nat) (v w : Verdict) : Prop where
  modes : w.modes = v.modes
  mutated : w.mutated = v.mutated
  points : w.points = v.points
  adaptors : w.adaptors = v.adaptors
  findings : Lighter m b v.findings w.findings

section Settling

variable (m : Module) (b : Nat)

theorem part_declared (p : Projection) : p.provide (m.declareMutable b) = p.provide m := by
  unfold Projection.provide
  rw [declareMutable_binding, Option.map_map]
  rfl

theorem parts_code (ps : List Projection) :
    ∀ d ∈ (ps.map (Projection.provide m)).filterMap Provision.finding?, d.code ≠ .immutableAssign := by
  intro d found
  obtain ⟨provision, made, refused⟩ := List.mem_filterMap.mp found
  obtain ⟨p, -, rfl⟩ := List.mem_map.mp made
  unfold Projection.provide at refused
  split at refused
  · cases refused
  · cases refused
    exact nofun

theorem declared_reworked :
    m.Reworked id (Lighter m b) (fun c yes => c == b || yes) (m.declareMutable b) where
  path := rfl
  structs := by
    refine (List.map_id _).symm.trans (List.map_congr_left fun s _ => ?_)
    rw [StructDecl.respan, show Field.respan id = id from rfl, List.map_id]
    rfl
  funcs := by
    rw [funext func_respan_same]
    exact (List.map_id' _).symm
  bindings := declareMutable_binding m b
  none := .nil
  append := .append
  sorted := .sorted
  settle {c bd} known u := by
    rw [usage_respan_same]
    exact settle_eased known b u
  parts ps := by
    rw [funext (part_declared m b), show Projection.respan id = id from rfl, List.map_id]
    exact .others (parts_code m ps)

end Settling

/-! ### Rounds -/

structure FuncAnalysis.Eased (m : Module) (b : Nat) (f g : FuncAnalysis) : Prop where
  func : g.func = f.func
  uses : g.uses = f.uses
  verdict : f.verdict.Eased m b g.verdict

structure Round.Eased (m : Module) (b : Nat) (r s : Round) : Prop where
  table : s.table = r.table
  funcs : List.Forall₂ (FuncAnalysis.Eased m b) r.funcs s.funcs

section Rounds

variable {m : Module} {b : Nat}

theorem FuncAnalysis.Eased.peers {f g : FuncAnalysis} (eased : f.Eased m b g) : f.Peers g := by
  refine ⟨?_, ?_, ?_, eased.verdict.modes⟩ <;> rw [eased.func]

theorem Round.Eased.next {r s : Round} (eased : r.Eased m b s) : s.next = r.next := by
  rw [Round.next, Round.next, eased.table]
  exact advance_peers (eased.funcs.imp fun _ _ same => same.peers) r.table

theorem FuncAnalysis.Moved.eased {f g : FuncAnalysis} (moved : f.Moved id (Lighter m b) g) :
    f.Eased m b g where
  func := moved.func.trans (func_respan_same _)
  uses := moved.uses.trans (collection_respan_same _)
  verdict := ⟨moved.verdict.modes, moved.verdict.mutated,
    moved.verdict.outcome.points.trans (List.map_id _), moved.verdict.adaptors,
    moved.verdict.outcome.findings⟩

variable (m b)

theorem history_eased (limit : Int) :
    List.Forall₂ (Round.Eased m b) (Analysis.of m limit).history
      (Analysis.of (m.declareMutable b) limit).history :=
  (history_moved (declared_reworked m b) limit).imp fun _ _ moved =>
    ⟨moved.table, moved.funcs.imp fun _ _ same => same.eased⟩

theorem last_eased (limit : Int) :
    (Analysis.of m limit).last.Eased m b (Analysis.of (m.declareMutable b) limit).last :=
  last_in_step (history_eased m b limit) ⟨rfl, .nil⟩

end Rounds

theorem generate_eased (m : Module) (b : Nat) (limit : Int) (file : String) :
    (Analysis.of (m.declareMutable b) limit).generate file = (Analysis.of m limit).generate file := by
  have whole := whole_moved (declared_reworked m b) limit
  rw [Doc.respan_same] at whole
  rw [generate_eq, generate_eq, whole]
  rfl

/-- Declaring a binding mutable is local, for every module, binding and limit of rounds. Tables, rounds,
uses, modes, marks of modification, duplicates and adaptors stay as they are, the generated file is the
same, and of the findings exactly those are gone that ask for the flag of this binding. -/
theorem mutable_flag_local (m : Module) (limit : Int) (b : Nat) :
    let before := Analysis.of m limit
    let after := Analysis.of (m.declareMutable b) limit
    after.table = before.table ∧ after.rounds = before.rounds ∧
      after.converged = before.converged ∧ after.hitLimit = before.hitLimit ∧
      List.Forall₂ (FuncAnalysis.Eased m b) before.funcs after.funcs ∧
      (∀ file, after.generate file = before.generate file) ∧
      Lighter m b before.findings after.findings := by
  intro before after
  have last := last_eased m b limit
  have rounds : after.rounds = before.rounds := (history_eased m b limit).length_eq.symm
  have limits : after.limit = before.limit := rfl
  refine ⟨last.table, rounds, ?_, ?_, last.funcs, generate_eased m b limit, ?_⟩
  · rw [Analysis.converged, Analysis.converged, Round.isStable, Round.isStable, last.next]
  · rw [Analysis.hitLimit, Analysis.hitLimit, rounds, limits]
  · exact .flatMap (fun _ _ eased => eased.verdict.findings) last.funcs

namespace Sample

def appending : Module :=
  { name := "appending", path := "appending.kl", file := 0, structs := [], exprs := #[], stmts := #[]
    funcs := [
      { id := 1, name := "extend", receiver := 0, owner := "", params := [], result := .string
        body := [stmt 1 .letVar 1 (.absent 0),
          .node ⟨2, .assign, Range.zero, 0, "+="⟩ (name 1 1) (.absent 0) [] (.absent 0)]
        isExtern := false, span := Range.zero }]
    bindings := #[⟨1, "line", .local_, .string, false, .none, 0, Range.zero⟩] }

end Sample

example : (Analysis.of Sample.appending).findings.map (·.code) = [.immutableAssign] ∧
    (Analysis.of (Sample.appending.declareMutable 1)).findings = [] := by
  decide +kernel

end Tenure
