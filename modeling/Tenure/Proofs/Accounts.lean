import Tenure.Proofs.Repairs

/- What a run of fixes says it did. A fix is staged file by file, each file as it stands before the fix,
   and goes in whole or not at all; every proposed fix is told once, as applied or as skipped. -/
namespace Tenure.Repair

variable {s : Shop} {bench next other : Bench} {id : Nat} {b : Buffer} {f : Fix} {files : List Nat}
  {edited : Nat → Prop} {p q : Progress}

def candidate (fs : FileSet) (x : Diagnostic × Nat × Fix) : Candidate :=
  ⟨x.1, x.2.2, fixId fs x.1 x.2.1, autoPath fs x.1.primary.file⟩

def Candidate.applied (c : Candidate) : Applied := ⟨c, c.fix.edits.length⟩

def Candidate.label (c : Candidate) : String × String := (c.id, c.fix.title)

def Skipped.label (k : Skipped) : String × String := (k.id, k.title)

theorem candidatesFrom_account (fs : FileSet) (seen : List String)
    (proposed : List (Diagnostic × Nat × Fix)) : ∃ kept left : List (Diagnostic × Nat × Fix),
      (kept ++ left).Perm proposed ∧ (candidatesFrom fs seen proposed).1 = kept.map (candidate fs) ∧
      (candidatesFrom fs seen proposed).2.map Skipped.label =
        left.map fun x => (candidate fs x).label := by
  induction proposed generalizing seen with
  | nil => exact ⟨[], [], .refl _, rfl, rfl⟩
  | cons x rest ih =>
    have skip (reason : Reason) : ∃ kept left : List (Diagnostic × Nat × Fix),
        (kept ++ left).Perm (x :: rest) ∧ (candidatesFrom fs seen rest).1 = kept.map (candidate fs) ∧
        (⟨(candidate fs x).id, x.2.2.title, reason⟩ :: (candidatesFrom fs seen rest).2).map
          Skipped.label = left.map fun x => (candidate fs x).label := by
      obtain ⟨kept, left, all, took, told⟩ := ih seen
      exact ⟨kept, x :: left, List.perm_middle.trans (all.cons x), took, congrArg (_ :: ·) told⟩
    unfold candidatesFrom
    dsimp only
    split
    · exact skip .noEdits
    · split
      · exact skip .duplicateId
      · obtain ⟨kept, left, all, took, told⟩ := ih (fixId fs x.1 x.2.1 :: seen)
        exact ⟨x :: kept, left, all.cons x, congrArg (candidate fs x :: ·) took, told⟩

theorem setBuffer_updates (id : Nat) (b : Buffer) :
    Updates Prod.fst id (id, b) (fun _ => (id, b)) (setBuffer id b) := ⟨rfl, fun _ _ => rfl⟩

theorem setBuffer_keys (id : Nat) (b : Buffer) (bench : Bench) :
    (setBuffer id b bench).map Prod.fst =
      if id ∈ bench.map Prod.fst then bench.map Prod.fst else bench.map Prod.fst ++ [id] :=
  (setBuffer_updates id b).keys rfl (fun _ _ => rfl) bench

structure Tally (bench : Bench) (edited : Nat → Prop) : Prop where
  keys : (bench.map Prod.fst).Nodup
  mem_iff : ∀ id, id ∈ bench.map Prod.fst ↔ edited id
  counted : ∀ entry ∈ bench, 0 < entry.2.edits

theorem Tally.set (tally : Tally bench edited) (id : Nat) (some : 0 < b.edits) :
    Tally (setBuffer id b bench) fun i => edited i ∨ i = id where
  keys := by
    rw [setBuffer_keys]
    split
    · exact tally.keys
    · rename_i new
      refine List.nodup_append.mpr ⟨tally.keys, by simp, ?_⟩
      rintro i old j last rfl
      exact new (List.mem_singleton.mp last ▸ old)
  mem_iff i := by
    rw [setBuffer_keys, ← tally.mem_iff]
    split
    · rename_i old
      exact ⟨.inl, fun either => either.elim (fun mem => mem) (fun same => same ▸ old)⟩
    · rw [List.mem_append, List.mem_singleton]
  counted := (setBuffer_updates id b).forall_mem tally.counted some fun _ _ => some

namespace Shop

theorem stage_congr (same : bench.lookup id = other.lookup id) :
    s.stage bench f id = s.stage other f id := by
  rw [stage, stage, bufferFor, bufferFor, same]

theorem stage_edits (mem : id ∈ filesOf f) (done : s.stage bench f id = .ok b) : 0 < b.edits := by
  obtain ⟨a, ps, -, made, -, patched⟩ := stage_ok done
  obtain ⟨last, -, rfl⟩ := Option.map_eq_some_iff.mp patched
  obtain ⟨e, edit, rfl⟩ := List.mem_map.mp (List.mem_eraseDups.mp mem)
  have some_edit : 0 < (f.edits.filter (·.range.file == e.range.file)).length :=
    List.length_pos_of_mem (List.mem_filter.mpr ⟨edit, beq_self_eq_true _⟩)
  have := (mapM_ok made).length_eq
  dsimp only
  omega

structure Staged (s : Shop) (bench : Bench) (f : Fix) (files : List Nat) (next : Bench) : Prop where
  staged : ∀ id ∈ files, ∃ b, s.stage bench f id = .ok b ∧ next.lookup id = some b
  kept : ∀ id ∉ files, next.lookup id = bench.lookup id

def applyAll (s : Shop) (f : Fix) (files : List Nat) (bench : Bench) : Except Reason Bench :=
  files.foldlM (fun bench id => s.applyTo bench id (f.edits.filter (·.range.file == id))) bench

theorem applyAll_cons (s : Shop) (f : Fix) (id : Nat) (files : List Nat) (bench : Bench) :
    s.applyAll f (id :: files) bench =
      s.stage bench f id >>= fun b => s.applyAll f files (setBuffer id b bench) := by
  rw [applyAll, List.foldlM_cons, applyTo_eq, bind_assoc]
  rfl

theorem applyAll_staged (distinct : files.Nodup) :
    (∃ next, s.applyAll f files bench = .ok next ∧ s.Staged bench f files next) ∨
      ∃ id ∈ files, ∃ reason, s.stage bench f id = .error reason ∧
        s.applyAll f files bench = .error reason := by
  induction files generalizing bench with
  | nil => exact .inl ⟨bench, rfl, by simp, by simp⟩
  | cons id files ih =>
    obtain ⟨fresh, distinct⟩ := List.nodup_cons.mp distinct
    rw [applyAll_cons]
    cases first : s.stage bench f id with
    | error reason => exact .inr ⟨id, List.mem_cons_self, reason, first, rfl⟩
    | ok b =>
      -- the other files do not see what becomes of this one
      have apart : ∀ i ∈ files, s.stage (setBuffer id b bench) f i = s.stage bench f i := by
        intro i later
        apply stage_congr
        rw [lookup_setBuffer, if_neg (by rintro rfl; exact fresh later)]
      rcases @ih (setBuffer id b bench) distinct with ⟨next, done, all⟩ | ⟨i, later, no⟩
      · refine .inl ⟨next, done, ?_, ?_⟩
        · intro i mem
          rcases List.mem_cons.mp mem with rfl | later
          · exact ⟨b, first, by rw [all.kept i fresh, lookup_setBuffer, if_pos rfl]⟩
          · rw [← apart i later]
            exact all.staged i later
        · intro i out
          rw [List.mem_cons, not_or] at out
          rw [all.kept i out.2, lookup_setBuffer, if_neg out.1]
      · rw [apart i later] at no
        exact .inr ⟨i, List.mem_cons_of_mem _ later, no⟩

theorem applyAll_tally (mine : ∀ id ∈ files, id ∈ filesOf f) (tally : Tally bench edited)
    (done : s.applyAll f files bench = .ok next) : Tally next fun i => edited i ∨ i ∈ files := by
  induction files generalizing bench edited with
  | nil =>
    cases done
    simpa using tally
  | cons id files ih =>
    rw [applyAll_cons] at done
    obtain ⟨b, first, done⟩ := ok_of_bind done
    have all := ih (fun i later => mine i (List.mem_cons_of_mem _ later))
      (tally.set id (stage_edits (mine id List.mem_cons_self) first)) done
    simpa only [List.mem_cons, or_assoc] using all

/-- A fix goes in whole, each of its files as staged, or one of its files refuses it and nothing but the
note of that remains. -/
def Settles (s : Shop) (p : Progress) (c : Candidate) (q : Progress) : Prop :=
  (s.Staged p.bench c.fix (filesOf c.fix) q.bench ∧ q.applied = p.applied ++ [c.applied] ∧
      q.skipped = p.skipped) ∨
    ∃ id ∈ filesOf c.fix, ∃ reason, s.stage p.bench c.fix id = .error reason ∧
      q = { p with skipped := p.skipped ++ [⟨c.id, c.fix.title, reason⟩] }

theorem step_settles (s : Shop) (p : Progress) (c : Candidate) : s.Settles p c (s.step p c) := by
  have whole : s.apply p.bench c.fix = s.applyAll c.fix (filesOf c.fix) p.bench := rfl
  rw [step, whole]
  rcases applyAll_staged (s := s) (f := c.fix) (eraseDups_nodup _) with ⟨_, done, staged⟩ | refused
  · rw [filesOf, done]
    exact .inl ⟨staged, rfl, rfl⟩
  · obtain ⟨id, mem, reason, no, failed⟩ := refused
    rw [filesOf, failed]
    exact .inr ⟨id, mem, reason, no, rfl⟩

def Edits (applied : List Applied) (id : Nat) : Prop := ∃ a ∈ applied, id ∈ filesOf a.candidate.fix

theorem step_tally (tally : Tally p.bench (Edits p.applied)) (c : Candidate) :
    Tally (s.step p c).bench (Edits (s.step p c).applied) := by
  unfold step
  split
  · rename_i next done
    have same : Edits (p.applied ++ [c.applied]) = fun i => Edits p.applied i ∨ i ∈ filesOf c.fix := by
      funext i
      simp [Edits, Candidate.applied, or_and_right, exists_or]
    have all := applyAll_tally (fun _ mem => mem) tally done
    rwa [← same] at all
  · exact tally

theorem run_tally (s : Shop) (skipped : List Skipped) (cs : List Candidate) :
    Tally (cs.foldl s.step { skipped }).bench (Edits (cs.foldl s.step { skipped }).applied) := by
  have start : Tally ({ skipped } : Progress).bench (Edits ({ skipped } : Progress).applied) :=
    ⟨.nil, by simp [Edits], fun _ mem => by cases mem⟩
  generalize ({ skipped } : Progress) = p at start ⊢
  induction cs generalizing p with
  | nil => exact start
  | cons c cs ih => exact ih _ (step_tally start c)

theorem bench_eq_nil (tally : Tally p.bench (Edits p.applied)) (none : p.applied = []) :
    p.bench = [] := by
  rw [← List.map_eq_nil_iff (f := Prod.fst), List.eq_nil_iff_forall_not_mem]
  intro id mem
  obtain ⟨a, applied, -⟩ := (tally.mem_iff id).mp mem
  rw [none] at applied
  cases applied

theorem steps_account (s : Shop) (fs : FileSet) (proposed : List (Diagnostic × Nat × Fix))
    (same : q.bench = p.bench) : ∃ taken left : List (Diagnostic × Nat × Fix),
    (taken ++ left).Perm proposed ∧
      ((proposed.map (candidate fs)).foldl s.step p).applied =
        p.applied ++ taken.map (fun x => (candidate fs x).applied) ∧
      ((proposed.map (candidate fs)).foldl s.step p).skipped.map Skipped.label =
        p.skipped.map Skipped.label ++ left.map (fun x => (candidate fs x).label) ∧
      ((proposed.map (candidate fs)).foldl s.step p).bench =
        ((taken.map (candidate fs)).foldl s.step q).bench := by
  induction proposed generalizing p q with
  | nil => exact ⟨[], [], .refl _, by simp, by simp, same.symm⟩
  | cons x rest ih =>
    rw [List.map_cons, List.foldl_cons]
    cases done : s.apply p.bench (candidate fs x).fix with
    | ok bench =>
      have alike : (s.step q (candidate fs x)).bench = (s.step p (candidate fs x)).bench := by
        rw [step, step, same, done]
      obtain ⟨taken, left, all, applied, skipped, benches⟩ := ih alike
      refine ⟨x :: taken, left, all.cons x, ?_, ?_, benches⟩
      · rw [applied, step, done]
        simp [Candidate.applied]
      · rw [skipped, step, done]
    | error reason =>
      have alike : q.bench = (s.step p (candidate fs x)).bench := by rw [step, done, same]
      obtain ⟨taken, left, all, applied, skipped, benches⟩ := ih alike
      refine ⟨taken, x :: left, List.perm_middle.trans (all.cons x), ?_, ?_, benches⟩
      · rw [applied, step, done]
      · rw [skipped, step, done]
        simp [Skipped.label, Candidate.label]

def picked (s : Shop) (ds : List Diagnostic) (choice : Choice) (canceled : Bool) :
    List Candidate × List Skipped :=
  let (candidates, skipped) := candidatesFrom s.files [] (proposals ds)
  let (selected, missed) := select (candidates.mergeSort Candidate.le) choice
  (if canceled then [] else selected, if candidates.isEmpty then skipped else skipped ++ missed)

def progress (s : Shop) (ds : List Diagnostic) (choice : Choice) (canceled : Bool) : Progress :=
  (s.picked ds choice canceled).1.foldl s.step { skipped := (s.picked ds choice canceled).2 }

theorem progress_tally (s : Shop) (ds : List Diagnostic) (choice : Choice) (canceled : Bool) :
    Tally (s.progress ds choice canceled).bench (Edits (s.progress ds choice canceled).applied) :=
  s.run_tally _ _

theorem changes_nil (s : Shop) : s.changes [] = [] := by simp [changes]

theorem run_eq (s : Shop) (ds : List Diagnostic) (choice : Choice) (canceled : Bool) :
    (s.run ds choice canceled).applied = (s.progress ds choice canceled).applied ∧
      (s.run ds choice canceled).skipped = (s.progress ds choice canceled).skipped ∧
      (s.run ds choice canceled).changes = s.changes (s.progress ds choice canceled).bench := by
  unfold run progress picked
  dsimp only
  generalize candidatesFrom s.files [] (proposals ds) = gathered
  have nothing : gathered.1 = [] → (select (gathered.1.mergeSort Candidate.le) choice).1 = [] := by
    intro empty
    rw [empty, List.mergeSort_nil]
    cases choice <;> rfl
  generalize select (gathered.1.mergeSort Candidate.le) choice = selected at nothing ⊢
  by_cases none : selected.1 = []
  · simp [none, changes_nil]
  · have some := mt nothing none
    cases canceled with
    | true => simp [none, some, changes_nil]
    | false =>
      have tally := s.run_tally (gathered.2 ++ selected.2) selected.1
      simp only [List.isEmpty_eq_false_iff.mpr some, List.isEmpty_eq_false_iff.mpr none, Bool.or_self,
        Bool.false_eq_true, if_false]
      generalize List.foldl s.step _ _ = p at tally ⊢
      by_cases empty : p.applied = []
      · simp [empty, bench_eq_nil tally empty, changes_nil]
      · simp [empty]

/-- Each proposed fix is told once, as applied or as skipped. What the files become is the work of the
applied ones alone; at each step a fix goes in whole or leaves everything as it was. Nothing is stored
on a trial run or when no fix is applied. -/
theorem fixes_accounted (s : Shop) (ds : List Diagnostic) :
    (∃ taken left : List (Diagnostic × Nat × Fix), (taken ++ left).Perm (proposals ds) ∧
      (s.run ds .all false).applied = taken.map (fun x => (candidate s.files x).applied) ∧
      (s.run ds .all false).skipped.map Skipped.label =
        left.map (fun x => (candidate s.files x).label) ∧
      (s.run ds .all false).changes =
        s.changes ((taken.map (candidate s.files)).foldl s.step {}).bench) ∧
    (∀ p c, s.Settles p c (s.step p c)) ∧
    ∀ choice canceled dryRun, dryRun = true ∨ (s.run ds choice canceled).applied = [] →
      (s.run ds choice canceled).writes dryRun = [] := by
  refine ⟨?_, s.step_settles, ?_⟩
  · obtain ⟨applied, skipped, changes⟩ := s.run_eq ds .all false
    obtain ⟨kept, out, gathered, candidates, notes⟩ := candidatesFrom_account s.files [] (proposals ds)
    have sorted : (s.picked ds .all false).1 = (kept.mergeSort fun x y =>
        Candidate.le (candidate s.files x) (candidate s.files y)).map (candidate s.files) := by
      rw [List.map_mergeSort (s := Candidate.le) (fun _ _ _ _ => rfl), ← candidates]
      rfl
    have noted : (s.picked ds .all false).2.map Skipped.label =
        out.map fun x => (candidate s.files x).label := by
      rw [← notes]
      simp [picked, select]
    obtain ⟨taken, left, all, took, told, benches⟩ := steps_account s s.files
      (kept.mergeSort fun x y => Candidate.le (candidate s.files x) (candidate s.files y))
      (p := { skipped := (s.picked ds .all false).2 }) (q := {}) rfl
    rw [← sorted] at took told benches
    refine ⟨taken, out ++ left, ?_, applied.trans took, ?_, changes.trans (congrArg s.changes benches)⟩
    · calc taken ++ (out ++ left)
        _ |>.Perm (taken ++ (left ++ out)) := List.perm_append_comm.append_left taken
        _ |>.Perm (taken ++ left ++ out) := .of_eq (List.append_assoc taken left out).symm
        _ |>.Perm (kept ++ out) := (all.trans (List.mergeSort_perm kept _)).append_right out
        _ |>.Perm (proposals ds) := gathered
    · rw [skipped, List.map_append, ← noted]
      exact told
  · rintro choice canceled dryRun (rfl | none)
    · rfl
    · obtain ⟨applied, -, changes⟩ := s.run_eq ds choice canceled
      rw [bench_eq_nil (s.progress_tally ds choice canceled) (applied ▸ none), changes_nil] at changes
      simp [Outcome.writes, changes]

end Shop

end Tenure.Repair
