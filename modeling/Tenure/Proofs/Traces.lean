import Tenure.Proofs.Duplicates
import Tenure.Proofs.Traversals

/- Where uses come from. Every event and every part that is given away belongs to a node that collecting
   has visited, and so does every duplicate that is made for it. -/
namespace Tenure

def Visited (vs : List Node) (id : Nat) (span : Range) : Prop :=
  ∃ e info, Node.expr e ∈ vs ∧ e.info? = some info ∧ info.id = id ∧ info.span = span

def VisitedClosure (vs : List Node) (id : Nat) : Prop :=
  ∃ e info, Node.expr e ∈ vs ∧ e.info? = some info ∧ info.id = id ∧ info.kind = .closure

def Event.Traced (vs : List Node) (e : Event) : Prop :=
  if e.kind = .capture then VisitedClosure vs e.expr else Visited vs e.expr e.span

def DuplicatePoint.Traced (vs : List Node) (p : DuplicatePoint) : Prop :=
  if p.capture then VisitedClosure vs p.expr else Visited vs p.expr p.span

/-- Everything that was collected comes from these nodes. -/
structure Collection.Traced (vs : List Node) (c : Collection) : Prop where
  events : ∀ u ∈ c.usages, ∀ e ∈ u.events, e.Traced vs
  parts : ∀ p ∈ c.projections, Visited vs p.expr p.span

section Steps

variable {vs : List Node} {c : Collector}

theorem addEvent_traced {us : List Usage} {e : Event} (known : ∀ u ∈ us, ∀ d ∈ u.events, d.Traced vs)
    (new : e.Traced vs) : ∀ u ∈ Collector.addEvent e us, ∀ d ∈ u.events, d.Traced vs :=
  (addEvent_updates e).forall_mem known (List.forall_mem_singleton.mpr new)
    fun _ old => List.forall_mem_append.mpr ⟨old, List.forall_mem_singleton.mpr new⟩

theorem record_traced (h : c.found.Traced vs) {e : Event} (new : e.Traced vs) :
    (c.record e).found.Traced vs := by
  refine ⟨addEvent_traced h.events ?_, h.parts⟩
  exact new

theorem declare_traced (h : c.found.Traced vs) (b : Nat) : (c.declare b).found.Traced vs := by
  unfold Collector.declare
  split
  · exact h
  · refine ⟨?_, h.parts⟩
    dsimp only
    split
    · exact h.events
    · exact List.forall_mem_append.mpr ⟨h.events, List.forall_mem_singleton.mpr nofun⟩

theorem declareAll_traced (h : c.found.Traced vs) (bs : List Nat) :
    (c.declareAll bs).found.Traced vs := by
  induction bs generalizing c with
  | nil => exact h
  | cons b bs ih => exact ih (declare_traced h b)

theorem use_traced (h : c.found.Traced vs) (b : Nat) (access : Access) {expr : Nat} {span : Range}
    (reinit : Bool) (visited : Visited vs expr span) :
    (c.use b access expr span reinit).found.Traced vs := by
  unfold Collector.use
  split
  · exact h
  · split
    · refine record_traced h ?_
      have plain : EventKind.ofAccess access ≠ .capture := by cases access <;> decide
      rw [Event.Traced, if_neg plain]
      exact visited
    · split
      · exact h
      · exact h

theorem passOn_traced (h : c.found.Traced vs) {expr : Nat} (escapes : Bool)
    (visited : VisitedClosure vs expr) (cap : Capture) :
    (c.passOn expr escapes cap).found.Traced vs := by
  unfold Collector.passOn
  split
  · refine record_traced h ?_
    rw [Event.Traced, if_pos rfl]
    exact visited
  · split
    · exact h
    · exact h

theorem openClosure_traced (h : c.found.Traced vs) (expr : Nat) (escapes : Bool) (params : List Nat) :
    (c.openClosure expr escapes params).found.Traced vs := by
  have opened : ({ c with
      found := { c.found with escaping := setKey expr escapes c.found.escaping }
      frames := {} :: c.frames } : Collector).found.Traced vs := ⟨h.events, h.parts⟩
  exact declareAll_traced opened params

theorem closeClosure_traced (h : c.found.Traced vs) (outer : Collector) {expr : Nat} (escapes : Bool)
    (visited : VisitedClosure vs expr) : (c.closeClosure outer expr escapes).found.Traced vs :=
  List.foldlRecOn (motive := fun d : Collector => d.found.Traced vs) _ _ ⟨h.events, h.parts⟩
    fun _ h cap _ => passOn_traced h escapes visited cap

theorem project_traced (h : c.found.Traced vs) {info : ExprInfo} (root : Nat) (access : Access)
    (visited : Visited vs info.id info.span) : (c.project info root access).found.Traced vs := by
  unfold Collector.project
  extract_lets typed
  split
  · exact ⟨h.events, List.forall_mem_append.mpr ⟨h.parts, List.forall_mem_singleton.mpr visited⟩⟩
  · exact h

end Steps

theorem Tour.traced {o : Outlook} {as : List Act} {vs ws : List Node} {c d : Collector}
    (h : Tour o as vs c d) (sub : vs ⊆ ws) (start : c.found.Traced ws) :
    d.found.Traced ws := by
  induction h with
  | refl => exact start
  | trans _ _ first second =>
    rw [List.append_subset] at sub
    exact second sub.2 (first sub.1 start)
  | inExpr _ _ inner | inStmt _ _ inner => exact inner (List.cons_subset.mp sub).2 start
  | use => exact use_traced start _ _ _ ⟨_, _, sub List.mem_cons_self, rfl, rfl, rfl⟩
  | part _ _ _ first rest =>
    rw [List.cons_subset, List.append_subset] at sub
    exact rest sub.2.2 (project_traced (first sub.2.1 start) _ _ ⟨_, _, sub.1, rfl, rfl, rfl⟩)
  | declare => exact declare_traced start _
  | closure kind _ inner =>
    rw [List.cons_subset] at sub
    exact closeClosure_traced (inner sub.2 (openClosure_traced start ..)) _ _
      ⟨_, _, sub.1, rfl, rfl, kind⟩
  | named _ kind _ _ _ inner =>
    rw [List.cons_subset, List.cons_subset] at sub
    exact closeClosure_traced (inner sub.2.2 (openClosure_traced start ..)) _ _
      ⟨_, _, sub.2.1, rfl, rfl, kind⟩
  | loop _ inner | elsewhere _ _ inner => exact inner sub start
  | each site _ inner =>
    refine inner sub (declare_traced ?_ site.var)
    exact ⟨start.events, start.parts⟩

theorem collect_traced (f : FuncDecl) (table : Signatures) :
    (f.collect table).Traced f.visits := by
  have start : ({} : Collector).found.Traced f.visits := ⟨nofun, nofun⟩
  rw [FuncDecl.collect_eq]
  exact (f.tour _).traced (List.Subset.refl _) (declareAll_traced start (f.receiver :: f.params))

variable {vs : List Node} {p : DuplicatePoint}

theorem provide_traced {bd : Binding} {declLoop : Nat} {e : Event}
    {later : List Event} (made : provide bd declLoop e later = .duplicate p)
    (h : e.Traced vs) : p.Traced vs := by
  unfold provide at made
  split at made
  · exact absurd made nofun
  · dsimp only at made
    split at made
    · exact absurd made nofun
    · split at made
      · exact absurd made nofun
      · split at made
        · obtain rfl := Provision.duplicate.inj made
          unfold DuplicatePoint.Traced
          unfold Event.Traced at h
          by_cases captured : e.kind = .capture
          · rw [if_pos captured] at h
            rw [if_pos (by simp [captured])]
            exact h
          · rw [if_neg captured] at h
            rw [if_neg (by simp [captured])]
            exact h
        · exact absurd made nofun

theorem settle_traced (bd : Binding) {u : Usage} (h : ∀ e ∈ u.events, e.Traced vs) :
    ∀ p ∈ (bd.settle u).points, p.Traced vs := by
  intro p made
  rw [(settle_provided bd u).1, Binding.provided] at made
  split at made
  · obtain ⟨front, e, later, split, duplicate, -⟩ := provisions_points made
    exact provide_traced duplicate (h e (by simp [split]))
  · cases made

theorem part_provide_traced {m : Module} {part : Projection}
    (made : part.provide m = .duplicate p) (h : Visited vs part.expr part.span) : p.Traced vs := by
  unfold Projection.provide at made
  split at made
  · obtain rfl := Provision.duplicate.inj made
    exact h
  · exact absurd made nofun

theorem retarget_traced {c : Collection} (h : c.Traced vs) (loopVar : Nat) :
    (c.retarget loopVar).Traced vs := by
  have kept : ∀ e : Event, e.Traced vs → (e.retarget loopVar).Traced vs := by
    intro e traced
    unfold Event.retarget
    split
    · rename_i reading
      rw [Event.Traced, if_neg (by simp [reading.2])] at traced
      exact traced
    · exact traced
  refine ⟨?_, h.parts⟩
  intro u member e there
  obtain ⟨w, old, rfl⟩ := List.mem_map.mp member
  obtain ⟨d, before, rfl⟩ := List.mem_map.mp there
  exact kept d (h.events w old d before)

section Resolve

variable {vs : List Node} {m : Module}

theorem verdict_settle_traced {c : Collection} (h : c.Traced vs) {v : Verdict}
    (known : ∀ p ∈ v.points, p.Traced vs) (b : Nat) : ∀ p ∈ (v.settle m c b).points, p.Traced vs := by
  unfold Verdict.settle
  split
  · exact known
  · rename_i bd _
    refine List.forall_mem_append.mpr ⟨known, settle_traced bd ?_⟩
    cases found : c.usage? b with
    | none => exact nofun
    | some u => exact h.events u (List.mem_of_find?_eq_some found)

theorem resolve_traced {c : Collection} (h : c.Traced vs) (m : Module) :
    ∀ p ∈ (c.resolve m).2.points, p.Traced vs := by
  have keeps : SettlingKeeps m fun c v => c.Traced vs ∧ ∀ p ∈ v.points, p.Traced vs :=
    ⟨fun h b => ⟨h.1, verdict_settle_traced h.1 h.2 b⟩, fun h _ => h,
      fun h w => ⟨retarget_traced h.1 w, h.2⟩⟩
  obtain ⟨uses, settled⟩ := keeps.settled ⟨h, nofun⟩
  obtain ⟨-, -, points, -⟩ := c.resolve_eq m
  intro p made
  rcases List.mem_append.mp (points.mem_iff.mp made) with whole | part
  · exact settled p whole
  · obtain ⟨provision, member, point⟩ := List.mem_filterMap.mp part
    obtain ⟨projection, there, rfl⟩ := List.mem_map.mp member
    cases outcome : projection.provide m with
    | nothing => rw [outcome] at point; exact absurd point nofun
    | refused d => rw [outcome] at point; exact absurd point nofun
    | duplicate q =>
      rw [outcome] at point
      obtain rfl : q = p := Option.some.inj point
      exact part_provide_traced outcome (uses.parts projection there)

end Resolve

theorem analyze_traced (m : Module) (table : Signatures) (f : FuncDecl) :
    ∀ p ∈ (f.analyze m table).verdict.points, p.Traced f.visits :=
  resolve_traced (collect_traced f table) m

end Tenure
