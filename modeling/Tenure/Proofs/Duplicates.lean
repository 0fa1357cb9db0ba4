import Tenure.Proofs.Modes

/- Duplicates are made where they are needed, and nowhere else. A value that is given away and needed
   again is duplicated or reported; when nothing is reported, no use meets a value that is gone. -/
namespace Tenure

theorem provisions_at (bd : Binding) (declLoop : Nat) (front : List Event) (e : Event)
    (later : List Event) :
    (provisions bd declLoop (front ++ e :: later))[front.length]? =
      some (provide bd declLoop e later) := by
  induction front with
  | nil => rfl
  | cons d front ih =>
    rw [List.cons_append, provisions, List.length_cons, List.getElem?_cons_succ]
    exact ih

theorem nextUse_isSome (later : List Event) :
    (nextUse later).isSome = true ↔ ∃ next rest, later = next :: rest ∧ next.reinit = false := by
  cases later with
  | nil => simp [nextUse]
  | cons next rest => cases same : next.reinit <;> simp [nextUse, same]

/-- The finding refuses to duplicate a whole value; one about a part has no notes. -/
def Diagnostic.isRefusal (d : Diagnostic) : Bool :=
  (d.code == .escapingCaptureMutated || d.code == .nonClonableDuplicate) && !d.notes.isEmpty

theorem Diagnostic.Refuses.isRefusal {d : Diagnostic} {bd : Binding} {e : Event}
    (h : d.Refuses bd e) : d.isRefusal = true := by
  obtain ⟨-, code, -, n, noted, -⟩ := h
  have notes : d.notes.isEmpty = false := by
    cases all : d.notes with
    | nil => exact absurd (all ▸ noted) List.not_mem_nil
    | cons => rfl
  rcases code with code | code <;> simp [Diagnostic.isRefusal, code, notes]

def Binding.isGuarded (bd : Binding) (mode : Mode) : Bool :=
  !bd.ty.isCopy && bd.marker != .ref && bd.marker != .mutRef && mode == .owned

def Binding.provided (bd : Binding) (u : Usage) : List Provision :=
  if bd.isGuarded (bd.settle u).mode then provisions bd u.declLoop u.events else []

def Collection.provided (m : Module) (c : Collection) (b : Nat) : List Provision :=
  ((m.binding? b).map (·.provided ((c.usage? b).getD { binding := b }))).getD []

section Settle

variable (bd : Binding) (u : Usage)

theorem provisions_refusals (declLoop : Nat) (es : List Event) :
    ((provisions bd declLoop es).filterMap Provision.finding?).filter Diagnostic.isRefusal =
      (provisions bd declLoop es).filterMap Provision.finding? := by
  rw [List.filter_eq_self]
  intro d there
  obtain ⟨x, made, same⟩ := List.mem_filterMap.mp there
  obtain ⟨-, e, later, -, rfl⟩ := mem_provisions made
  exact (provide_finding same).isRefusal

theorem conflict_kept (e : Event) (problem advice : String) :
    (bd.conflict e problem advice).isRefusal = false := rfl

theorem immutable_kept (e : Event) : (bd.immutable e).isRefusal = false := rfl

theorem filter_toList_none {α : Type} {p : α → Bool} {g : Event → α} (out : ∀ e, p (g e) = false)
    (o : Option Event) : (o.map g).toList.filter p = [] := by
  cases o <;> simp [out]

theorem settle_provided :
    (bd.settle u).points = (bd.provided u).filterMap Provision.point? ∧
      (bd.settle u).findings.filter Diagnostic.isRefusal =
        (bd.provided u).filterMap Provision.finding? := by
  -- other findings, about changes and about markers, are no refusals
  have legal : ∀ o : Option Event, (o.map bd.immutable).toList.filter Diagnostic.isRefusal = [] :=
    filter_toList_none (immutable_kept bd)
  unfold Binding.provided Binding.isGuarded
  cases marker : bd.marker with
  | ref =>
    have conflicts : ∀ (problem advice : String) (o : Option Event),
        (o.map fun e => bd.conflict e problem advice).toList.filter Diagnostic.isRefusal = [] :=
      fun problem advice => filter_toList_none (conflict_kept bd · problem advice)
    simp [Binding.settle, marker, conflicts]
  | mutRef =>
    simp [Binding.settle, marker, filter_toList_none (conflict_kept bd · _ _)]
  | none =>
    cases copied : bd.ty.isCopy with
    | true => simp [Binding.settle, marker, copied, legal]
    | false =>
      by_cases given : (u.events.find? Event.transfers).isSome = true
      · simp [Binding.settle, marker, copied, given, legal, provisions_refusals]
      · cases changed : u.events.find? Event.isMutation <;>
          simp [Binding.settle, marker, copied, given, changed, legal]
  | owned =>
    cases copied : bd.ty.isCopy with
    | true => simp [Binding.settle, marker, copied, legal]
    | false => simp [Binding.settle, marker, copied, legal, provisions_refusals]

end Settle

/-- All duplicates of whole values, and all refusals to make one, belong each to a use. -/
structure FuncAnalysis.Accounts (fa : FuncAnalysis) (m : Module) (bs : List Nat) : Prop where
  points : (fa.verdict.points.filter (·.reason != .projection)).Perm
    (bs.flatMap fun b => (fa.uses.provided m b).filterMap Provision.point?)
  findings : (fa.verdict.findings.filter Diagnostic.isRefusal).Perm
    (bs.flatMap fun b => (fa.uses.provided m b).filterMap Provision.finding?)

namespace Collection

variable (m : Module) (c : Collection)

theorem settlements_flatMap {α : Type} {g : Settlement → List α} {h : Provision → Option α}
    (same : ∀ (bd : Binding) (u : Usage), g (bd.settle u) = (bd.provided u).filterMap h)
    (bs : List Nat) :
    (bs.filterMap (c.settlement? m)).flatMap g =
      bs.flatMap fun b => (c.provided m b).filterMap h := by
  rw [List.filterMap_eq_flatMap_toList, List.flatMap_assoc]
  refine List.flatMap_congr fun b _ => ?_
  rw [settlement?, provided]
  cases m.binding? b with
  | none => rfl
  | some bd => simp [same]

end Collection

theorem settle_points_whole (bd : Binding) (u : Usage) :
    (bd.settle u).points.filter (·.reason != .projection) =
      (bd.provided u).filterMap Provision.point? := by
  rw [← (settle_provided bd u).1, List.filter_eq_self]
  intro p made
  obtain ⟨e, -, serves⟩ := settle_points bd u made
  simpa using serves.reason

theorem parts_apart (m : Module) (ps : List Projection) :
    (((ps.map (Projection.provide m)).filterMap Provision.point?).filter
        (·.reason != .projection) = []) ∧
      ((ps.map (Projection.provide m)).filterMap Provision.finding?).filter
        Diagnostic.isRefusal = [] := by
  induction ps with
  | nil => exact ⟨rfl, rfl⟩
  | cons p ps ih =>
    rw [List.map_cons, List.filterMap_cons, List.filterMap_cons]
    rcases Projection.provide_cases m p with ⟨q, duplicate, part⟩ | ⟨d, refused, quiet⟩
    · simpa [duplicate, Provision.point?, Provision.finding?, part] using ih
    · simpa [refused, Provision.point?, Provision.finding?, Diagnostic.isRefusal, quiet] using ih

structure Event.At (e : Event) (x : Mention) : Prop where
  expr : e.expr = x.expr
  stmt : e.stmt = x.stmt
  depth : e.loopDepth = x.loops.length
  inReturn : e.inReturn = x.inReturn
  reinit : e.reinit = x.reinit
  transfers : e.transfers = true ↔ x.effect = .move ∨ x.effect = .store

theorem Event.Records.at_ranOver {e : Event} {x : Mention} (h : e.Records x) (v : Verdict)
    (vars : List Nat) : (e.ranOver v vars).At x := by
  unfold Event.ranOver
  split
  -- a read becomes a modification, and neither gives the value away
  · rename_i modified
    refine ⟨h.expr, h.stmt, h.depth, h.inReturn, h.reinit, ?_⟩
    rw [← h.effect]
    simp [Event.transfers, Event.effective, modified.1]
  · refine ⟨h.expr, h.stmt, h.depth, h.inReturn, h.reinit, ?_⟩
    rw [← h.effect]
    simp [Event.transfers]

def FuncAnalysis.duplicates (fa : FuncAnalysis) (e : Event) : Bool :=
  fa.verdict.points.any fun p => p.reason != .projection && p.seq == e.seq

def FuncAnalysis.spends (fa : FuncAnalysis) (e : Event) : Bool :=
  e.transfers && !e.inReturn && !fa.duplicates e

/-- Replays uses in order: only a whole-value assignment may meet a value that is gone, and it makes
the value valid again. -/
def replays (spends : Event → Bool) : Bool → List Event → Bool
  | _, [] => true
  | valid, e :: es => (valid || e.reinit) && replays spends (!spends e && (valid || e.reinit)) es

theorem replays_of_last {spends : Event → Bool} {es : List Event} {valid : Bool}
    (last : ∀ front e later, es = front ++ e :: later → spends e = true → nextUse later = none)
    (there : valid = false → nextUse es = none) : replays spends valid es = true := by
  -- when the value is gone, nothing follows, or an assignment does
  induction es generalizing valid with
  | nil => rfl
  | cons e es ih =>
    have met : (valid || e.reinit) = true := by
      cases valid with
      | true => rfl
      | false =>
        have gone := there rfl
        cases again : e.reinit with
        | true => rfl
        | false => simp [nextUse, again] at gone
    rw [replays, met, Bool.true_and, Bool.and_true]
    apply ih
    · intro front d later split spent
      exact last (e :: front) d later (by rw [split, List.cons_append]) spent
    · intro spent
      exact last [] e es rfl (by simpa using spent)

theorem Usage.Numbered.events_rising {c : Collection} (h : Usage.Numbered c.usages) (b : Nat) :
    (c.events b).Pairwise (·.seq < ·.seq) := by
  rw [Collection.events]
  cases present : c.usage? b with
  | none => exact .nil
  | some u => exact h.rising u (List.mem_of_find?_eq_some present)

theorem split_unique {front later front' later' : List Event} {e e' : Event}
    (rising : (front ++ e :: later).Pairwise (·.seq < ·.seq))
    (same : front ++ e :: later = front' ++ e' :: later') (seq : e.seq = e'.seq) :
    e = e' ∧ later = later' := by
  have distinct : ((front ++ e :: later).map (·.seq)).Nodup :=
    List.pairwise_map.mpr (rising.imp fun before => Nat.ne_of_lt before)
  have member : e' ∈ front ++ e :: later := by simp [same]
  obtain rfl : e = e' := List.inj_on_of_nodup_map distinct (by simp) member seq
  have once := distinct.of_map
  rw [List.nodup_append, List.nodup_cons] at once
  obtain ⟨-, ⟨behind, -⟩, apart⟩ := once
  have before : e ∉ front := fun there => apart e there e List.mem_cons_self rfl
  exact ((List.append_cons_inj_of_notMem before behind).mp same).2

section Analysis

variable {m : Module} {f : FuncDecl} (within : f.isScoped = true) (table : Signatures)

include within

theorem analyze_accounts (m : Module) : (f.analyze m table).Accounts m f.binds := by
  have resolves := collect_resolves within table m
  constructor
  · refine (resolves.points.filter _).trans ?_
    rw [List.filter_append, (parts_apart m _).1, List.append_nil, List.filter_flatMap,
      Collection.settlements_flatMap m _ settle_points_whole]
    exact List.Perm.refl _
  · refine (resolves.findings.filter _).trans ?_
    rw [List.filter_append, (parts_apart m _).2, List.append_nil, List.filter_flatMap,
      Collection.settlements_flatMap m _ fun bd u => (settle_provided bd u).2]
    exact List.Perm.refl _

theorem analyze_usage (m : Module) {b : Nat} (declared : b ∈ f.binds) :
    ∃ u home, (f.analyze m table).uses.usage? b = some u ∧
      f.home? (f.outlook table) b = some home ∧ u.declLoop = home.length ∧
      List.Forall₂ Event.At u.events (f.mentions (f.outlook table) b) ∧
      ∀ x ∈ f.mentions (f.outlook table) b, home <:+ x.loops := by
  obtain ⟨u, home, present, found, depth, records, inside⟩ :=
    FuncDecl.collect_declared within table declared
  have uses : (f.analyze m table).uses = _ := (collect_resolves within table m).uses
  rw [uses, Collection.usage_mapEvents, present]
  refine ⟨_, home, rfl, found, depth, ?_, inside⟩
  rw [List.forall₂_map_left_iff]
  exact records.imp fun e x h => h.at_ranOver _ _

section Guarded

variable {b : Nat} {bd : Binding} (declared : b ∈ f.binds) (known : m.binding? b = some bd)
  (guarded : bd.isGuarded ((f.analyze m table).verdict.mode b) = true)

include declared known guarded

variable {home : List Nat}

theorem analyze_provided (found : f.home? (f.outlook table) b = some home) :
    (f.analyze m table).uses.provided m b =
      provisions bd home.length ((f.analyze m table).uses.events b) := by
  obtain ⟨u, home', present, found', depth, -⟩ := analyze_usage within table m declared
  obtain ⟨w, -, outcome, mode, -⟩ := analyze_settled within table declared known
  obtain rfl : home' = home := Option.some.inj (found'.symm.trans found)
  have settled : bd.settle u = bd.settle w := by
    rw [Collection.settlement?, known, present] at outcome
    exact Option.some.inj outcome
  rw [Collection.provided, known, present, Option.map_some, Option.getD_some, Option.getD_some,
    Binding.provided, settled, ← mode, if_pos guarded, depth, Collection.events, present]
  rfl

variable {front later : List Event} {e : Event}
  (split : (f.analyze m table).uses.events b = front ++ e :: later)

include split

theorem analyze_use (found : f.home? (f.outlook table) b = some home) :
    ((f.analyze m table).uses.provided m b)[front.length]? =
        some (provide bd home.length e later) ∧
      (∀ p, provide bd home.length e later = .duplicate p → p ∈ (f.analyze m table).verdict.points) ∧
      ∀ d, provide bd home.length e later = .refused d →
        d ∈ (f.analyze m table).verdict.findings := by
  have accounts := analyze_accounts within table m
  have place : ((f.analyze m table).uses.provided m b)[front.length]? =
      some (provide bd home.length e later) := by
    rw [analyze_provided within table declared known guarded found, split]
    exact provisions_at bd home.length front e later
  have member := List.mem_of_getElem? place
  refine ⟨place, ?_, ?_⟩
  · intro p duplicate
    have given : p ∈ ((f.analyze m table).uses.provided m b).filterMap Provision.point? :=
      List.mem_filterMap.mpr ⟨_, member, by rw [duplicate]; rfl⟩
    exact List.mem_of_mem_filter (accounts.points.mem_iff.mpr
      (List.mem_flatMap.mpr ⟨b, declared, given⟩))
  · intro d refused
    have given : d ∈ ((f.analyze m table).uses.provided m b).filterMap Provision.finding? :=
      List.mem_filterMap.mpr ⟨_, member, by rw [refused]; rfl⟩
    exact List.mem_of_mem_filter (accounts.findings.mem_iff.mpr
      (List.mem_flatMap.mpr ⟨b, declared, given⟩))

theorem analyze_serves (found : f.home? (f.outlook table) b = some home)
    {p : DuplicatePoint} (made : p ∈ (f.analyze m table).verdict.points) (serves : p.Serves e) :
    provide bd home.length e later = .duplicate p := by
  have numbered := analyze_numbered within table m
  have rising := numbered.events_rising b
  -- the number of the duplicate tells the binding first, and then the place among its uses
  obtain ⟨a, s, settled, point, d, used, served⟩ := analyze_point within table made serves.reason
  have member : e ∈ (f.analyze m table).uses.events b := by simp [split]
  obtain rfl : a = b := numbered.same used member (served.seq.symm.trans serves.seq)
  have provided : p ∈ ((f.analyze m table).uses.provided m a).filterMap Provision.point? := by
    rw [Collection.settlement?, known, Option.map_some, Option.some.injEq] at settled
    rw [← settled, (settle_provided bd _).1] at point
    rw [Collection.provided, known, Option.map_some, Option.getD_some]
    exact point
  rw [analyze_provided within table declared known guarded found] at provided
  obtain ⟨front', e', later', split', duplicate, own⟩ := provisions_points provided
  rw [split] at rising split'
  obtain ⟨rfl, rfl⟩ := split_unique rising split' (serves.seq.symm.trans own.seq)
  exact duplicate

theorem analyze_needed (found : f.home? (f.outlook table) b = some home)
    (given : e.transfers = true) (stays : e.inReturn = false) :
    ((∃ p ∈ (f.analyze m table).verdict.points, p.Serves e) ∨
        ∃ d ∈ (f.analyze m table).verdict.findings, d.Refuses bd e ∧
          ((f.analyze m table).uses.provided m b)[front.length]? = some (.refused d)) ↔
      (∃ next rest, later = next :: rest ∧ next.reinit = false) ∨ home.length < e.loopDepth := by
  obtain ⟨place, points, findings⟩ :=
    analyze_use within table declared known guarded split found
  have needs : e.needsDuplicate home.length later = true ↔
      (∃ next rest, later = next :: rest ∧ next.reinit = false) ∨ home.length < e.loopDepth := by
    rw [← nextUse_isSome]
    simp [Event.needsDuplicate, given, stays]
  rw [← needs]
  rcases provide_cases bd home.length e later with
    ⟨spare, none⟩ | ⟨need, ⟨p, duplicate, serves⟩ | ⟨d, refused, refuses⟩⟩
  · constructor
    · rintro (⟨p, made, serves⟩ | ⟨d, -, -, refused⟩)
      · have duplicate :=
          analyze_serves within table declared known guarded split found made serves
        rw [none] at duplicate
        exact absurd duplicate (by simp)
      · rw [place, none] at refused
        exact absurd refused (by simp)
    · intro need
      rw [spare] at need
      exact absurd need Bool.false_ne_true
  · exact ⟨fun _ => need, fun _ => .inl ⟨p, points p duplicate, serves⟩⟩
  · refine ⟨fun _ => need, fun _ => .inr ⟨d, findings d refused, refuses, ?_⟩⟩
    rw [place, refused]

theorem analyze_spent (found : f.home? (f.outlook table) b = some home)
    (clean : ∀ d ∈ (f.analyze m table).verdict.findings, ¬d.Refuses bd e)
    (spent : (f.analyze m table).spends e = true) :
    nextUse later = none ∧ e.loopDepth ≤ home.length := by
  obtain ⟨-, points, findings⟩ :=
    analyze_use within table declared known guarded split found
  rw [FuncAnalysis.spends, Bool.and_eq_true, Bool.and_eq_true, Bool.not_eq_true',
    Bool.not_eq_true'] at spent
  obtain ⟨⟨given, stays⟩, single⟩ := spent
  rcases provide_cases bd home.length e later with
    ⟨spare, -⟩ | ⟨-, ⟨p, duplicate, serves⟩ | ⟨d, refused, refuses⟩⟩
  · simpa [Event.needsDuplicate, given, stays] using spare
  · have doubled : (f.analyze m table).duplicates e = true :=
      List.any_eq_true.mpr ⟨p, points p duplicate, by simp [serves.reason, serves.seq]⟩
    rw [single] at doubled
    exact absurd doubled Bool.false_ne_true
  · exact absurd refuses (clean d (findings d refused))

end Guarded

end Analysis

/-- A value that is given away, except by a return, is duplicated or reported exactly when it is needed
again: by the next use, unless that replaces the value, or by a loop that does not declare it and comes
here once more. So, when nothing is reported for a binding, none of its uses meets a value that is gone,
and no loop gives away what it does not declare. -/
theorem duplicated_where_needed {m : Module} {f : FuncDecl} (within : f.isScoped = true)
    (table : Signatures) {b : Nat} {bd : Binding} (declared : b ∈ f.binds)
    (known : m.binding? b = some bd) (single : bd.ty.isCopy = false)
    (free : bd.marker ≠ .ref ∧ bd.marker ≠ .mutRef)
    (owned : (f.analyze m table).verdict.mode b = .owned) :
    ∃ home, f.home? (f.outlook table) b = some home ∧
      ((f.analyze m table).uses.events b).Pairwise (·.seq < ·.seq) ∧
      List.Forall₂ Event.At ((f.analyze m table).uses.events b) (f.mentions (f.outlook table) b) ∧
      (f.analyze m table).Accounts m f.binds ∧
      (∀ front e later, (f.analyze m table).uses.events b = front ++ e :: later →
        e.transfers = true → e.inReturn = false →
          (((∃ p ∈ (f.analyze m table).verdict.points, p.Serves e) ∨
              ∃ d ∈ (f.analyze m table).verdict.findings, d.Refuses bd e ∧
                ((f.analyze m table).uses.provided m b)[front.length]? = some (.refused d)) ↔
            (∃ next rest, later = next :: rest ∧ next.reinit = false) ∨
              home.length < e.loopDepth)) ∧
      ((∀ d ∈ (f.analyze m table).verdict.findings,
          ∀ e ∈ (f.analyze m table).uses.events b, ¬d.Refuses bd e) →
        replays (f.analyze m table).spends true ((f.analyze m table).uses.events b) = true ∧
          List.Forall₂ (fun e x => (f.analyze m table).spends e = true → x.loops = home)
            ((f.analyze m table).uses.events b) (f.mentions (f.outlook table) b)) := by
  have guarded : bd.isGuarded ((f.analyze m table).verdict.mode b) = true := by
    simp [Binding.isGuarded, single, free, owned]
  obtain ⟨u, home, present, found, -, places, inside⟩ := analyze_usage within table m declared
  have events : (f.analyze m table).uses.events b = u.events := by
    rw [Collection.events, present]
    rfl
  rw [← events] at places
  refine ⟨home, found, (analyze_numbered within table m).events_rising b, places,
    analyze_accounts within table m, ?_, ?_⟩
  · intro front e later split given stays
    exact analyze_needed within table declared known guarded split found given stays
  · intro clean
    have spent : ∀ {front e later}, (f.analyze m table).uses.events b = front ++ e :: later →
        (f.analyze m table).spends e = true → nextUse later = none ∧ e.loopDepth ≤ home.length := by
      intro front e later split
      exact analyze_spent within table declared known guarded split found
        fun d there => clean d there e (by simp [split])
    constructor
    · refine replays_of_last (fun front e later split gone => (spent split gone).1) ?_
      exact fun h => absurd h (by decide)
    · rw [List.forall₂_iff_zip] at places ⊢
      refine ⟨places.1, ?_⟩
      intro e x pair gone
      have stands := places.2 pair
      obtain ⟨member, mention⟩ := List.of_mem_zip pair
      obtain ⟨front, later, split⟩ := List.append_of_mem member
      -- the loops of the declaration are around the use too, so no deeper means the same loops
      have shallow := (spent split gone).2
      rw [stands.depth] at shallow
      exact ((inside x mention).eq_of_length_le shallow).symm

namespace Sample

def spread : FuncDecl :=
  { id := 1, name := "spread", receiver := 0, owner := "", params := [1], result := .string
    body := [
      stmt 1 .letVar 2 (name 1 1),
      stmt 2 .whileLoop 0 (.absent 0) [stmt 3 .letVar 3 (name 2 1)],
      .node ⟨4, .assign, Range.zero, 0, "="⟩ (name 3 1) (name 4 2) [] (.absent 0),
      stmt 5 .give 0 (name 5 1)]
    isExtern := false, span := Range.zero }

def spreading : Module :=
  { name := "spreading", path := "spreading.kl", file := 0, structs := [], funcs := [spread]
    exprs := #[], stmts := #[]
    bindings := #[
      ⟨1, "text", .param, .string, true, .none, 0, Range.zero⟩,
      ⟨2, "first", .local_, .string, false, .none, 0, Range.zero⟩,
      ⟨3, "again", .local_, .string, false, .none, 0, Range.zero⟩] }

end Sample

theorem spread_duplicated_where_needed :
    (((Sample.spread.analyze Sample.spreading []).uses.provided Sample.spreading 1).filterMap
        Provision.point?).map (fun p => (p.expr, p.reason)) = [(1, .laterUse), (2, .loopCarried)] ∧
      replays (Sample.spread.analyze Sample.spreading []).spends true
        ((Sample.spread.analyze Sample.spreading []).uses.events 1) = true := by
  obtain ⟨home, -, -, -, accounts, -, safe⟩ := duplicated_where_needed (m := Sample.spreading)
    (f := Sample.spread) (by decide) [] (b := 1) (by decide) rfl rfl (by decide) (by decide)
  refine ⟨by decide, (safe ?_).1⟩
  intro d there e _ refuses
  have given := accounts.findings.mem_iff.mp (List.mem_filter.mpr ⟨there, refuses.isRefusal⟩)
  have none : Sample.spread.binds.flatMap (fun b =>
      ((Sample.spread.analyze Sample.spreading []).uses.provided Sample.spreading b).filterMap
        Provision.finding?) = [] := by decide
  rw [none] at given
  exact absurd given List.not_mem_nil

end Tenure
