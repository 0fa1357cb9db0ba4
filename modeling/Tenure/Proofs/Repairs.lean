import Tenure.Proofs.Association
import Tenure.Proofs.Positions
import Tenure.Proofs.Substitution
import Tenure.Repair.Apply

/- What a run of fixes leaves in the files. Every buffer holds exactly the patches of the fixes that
   were applied, in the order in which they went in; a fix that is skipped leaves no trace. -/
namespace Tenure

theorem clash_eq_false_iff {ps : List Patch} :
    clash ps = false ↔ ps.Pairwise fun p q => p.overlaps q = false := by
  induction ps with
  | nil => simp [clash]
  | cons p ps ih => simp [clash, ih, List.pairwise_cons]

namespace Buffer

variable {b next : Buffer} {ps qs : List Patch}

theorem splices_hold (holds : b.Holds ps)
    (bounds : ∀ q ∈ qs, q.start ≤ q.stop ∧ q.stop ≤ b.origin.length)
    (beside : ∀ p ∈ ps, ∀ q ∈ qs, p.overlaps q = false)
    (apart : qs.Pairwise fun p q => p.overlaps q = false) (done : qs.foldlM splice b = some next) :
    next.Holds (ps ++ qs) ∧ next.origin = b.origin := by
  induction qs generalizing b ps with
  | nil =>
    cases done
    rw [List.append_nil]
    exact ⟨holds, rfl⟩
  | cons q qs ih =>
    obtain ⟨mid, first, rest⟩ := Option.bind_eq_some_iff.mp done
    obtain ⟨heads, tails⟩ := List.pairwise_cons.mp apart
    have fits : q.Fits b.origin.length ps :=
      ⟨(bounds q (by simp)).1, (bounds q (by simp)).2, fun p mem => beside p mem q (by simp)⟩
    obtain ⟨held, same⟩ := splice_holds holds fits first
    have later : ∀ p ∈ ps ++ [q], ∀ r ∈ qs, p.overlaps r = false := by
      intro p mem r after
      rcases List.mem_append.mp mem with old | new
      · exact beside p old r (by simp [after])
      · rw [List.mem_singleton.mp new]
        exact heads r after
    have inside : ∀ r ∈ qs, r.start ≤ r.stop ∧ r.stop ≤ mid.origin.length := by
      intro r mem
      rw [same]
      exact bounds r (by simp [mem])
    obtain ⟨all, origin⟩ := ih held inside later tails rest
    rw [List.append_assoc] at all
    exact ⟨all, origin.trans same⟩

theorem patch_holds (holds : b.Holds ps)
    (bounds : ∀ q ∈ qs, q.start ≤ q.stop ∧ q.stop ≤ b.origin.length) (room : b.admits qs = true)
    (done : b.patch qs = some next) :
    next.Holds (ps ++ qs.mergeSort Patch.rightToLeft) ∧ next.origin = b.origin ∧
      next.edits = b.edits + qs.length := by
  obtain ⟨last, run, rfl⟩ := Option.map_eq_some_iff.mp done
  obtain ⟨free, apart⟩ := (Bool.and_eq_true _ _).mp room
  have sorted := List.mergeSort_perm qs Patch.rightToLeft
  have beside : ∀ p ∈ ps, ∀ q ∈ qs.mergeSort Patch.rightToLeft, p.overlaps q = false := by
    intro p old q new
    simp only [Bool.not_eq_true', List.any_eq_false, Bool.not_eq_true] at free
    exact free p (holds.accepted.mem_iff.mpr old) q (sorted.mem_iff.mp new)
  have pairs : (qs.mergeSort Patch.rightToLeft).Pairwise fun p q => p.overlaps q = false := by
    refine (sorted.pairwise_iff ?_).mpr (clash_eq_false_iff.mp (by simpa using apart))
    intro p q away
    rw [Patch.overlaps_comm, away]
  have inside := fun q mem => bounds q (sorted.mem_iff.mp mem)
  obtain ⟨held, same⟩ := splices_hold holds inside beside pairs run
  exact ⟨⟨held.taken, held.accepted, held.sorted, held.exact, held.short⟩, same, rfl⟩

theorem ofContent_holds (bs : Bytes) : (ofContent bs).Holds [] where
  taken := .nil
  accepted := .refl _
  sorted := .nil
  exact := fun _ => substitute_nil.symm
  short := fun lost => absurd .nil lost

end Buffer

namespace Repair

theorem lookup_setBuffer (id i : Nat) (b : Buffer) (bench : Bench) :
    (setBuffer id b bench).lookup i = if i = id then some b else bench.lookup i :=
  lookup_set (setBuffer id b) ⟨rfl, fun _ _ => rfl⟩ bench i

namespace Shop

variable {s : Shop}

def patchesOf (s : Shop) (id : Nat) (origin : Bytes) (f : Fix) : List Patch :=
  (((f.edits.filter (·.range.file == id)).mapM
    (patchFor (Buffer.ofContent origin) (s.pathOf id))).toOption.getD []).mergeSort Patch.rightToLeft

def history (s : Shop) (applied : List Applied) (id : Nat) (origin : Bytes) : List Patch :=
  applied.flatMap fun a => s.patchesOf id origin a.candidate.fix

/-- The open files hold what is on record for them, and there is nothing on record for others. -/
structure Keeps (s : Shop) (bench : Bench) (past : Nat → Bytes → List Patch) : Prop where
  opened : ∀ id b, bench.lookup id = some b →
    s.openFile id = .ok (Buffer.ofContent b.origin) ∧ b.Holds (past id b.origin) ∧
      b.edits = (past id b.origin).length
  untouched : ∀ id origin, bench.lookup id = none → past id origin = []

theorem openFile_eq {id : Nat} {b : Buffer} (opened : s.openFile id = .ok b) :
    b = Buffer.ofContent b.origin := by
  unfold openFile at opened
  split at opened
  · cases opened
  · split at opened
    · cases opened
    · split at opened
      · cases opened
      · split at opened
        · cases opened
        · cases opened
          rfl

theorem patchFor_bounds {b : Buffer} {path : String} {e : Edit} {q : Patch}
    (made : patchFor b path e = .ok q) : q.start ≤ q.stop ∧ q.stop ≤ b.origin.length := by
  unfold patchFor at made
  dsimp only at made
  split at made
  · cases made
  · cases made
    have start := File.offset_le ⟨FileSet.normalPath path, b.origin, { isVirtual := true }⟩ e.range.start
    have stop := File.offset_le ⟨FileSet.normalPath path, b.origin, { isVirtual := true }⟩ e.range.stop
    exact ⟨Nat.le_max_left _ _, Nat.max_le.mpr ⟨start, stop⟩⟩

def stage (s : Shop) (bench : Bench) (f : Fix) (id : Nat) : Except Reason Buffer := do
  let b ← s.bufferFor bench id
  let patches ← (f.edits.filter (·.range.file == id)).mapM (patchFor b (s.pathOf id))
  if !b.admits patches then .error (.conflict (s.pathOf id))
  else (b.patch patches).elim (.error .outOfRange) .ok

theorem applyTo_eq (s : Shop) (bench : Bench) (f : Fix) (id : Nat) :
    s.applyTo bench id (f.edits.filter (·.range.file == id)) =
      s.stage bench f id >>= fun b => .ok (setBuffer id b bench) := by
  unfold applyTo stage
  cases s.bufferFor bench id with
  | error e => rfl
  | ok b =>
    simp only [bind, Except.bind]
    split
    · rfl
    · split
      · rfl
      · rename_i ps _ _
        cases b.patch ps <;> rfl

variable {bench : Bench} {f : Fix} {past : Nat → Bytes → List Patch} {p : Progress}

theorem stage_ok {id : Nat} {next : Buffer}
    (done : s.stage bench f id = .ok next) : ∃ b ps, s.bufferFor bench id = .ok b ∧
      (f.edits.filter (·.range.file == id)).mapM (patchFor b (s.pathOf id)) = .ok ps ∧
      b.admits ps = true ∧ b.patch ps = some next := by
  obtain ⟨b, buffer, done⟩ := ok_of_bind done
  obtain ⟨ps, made, done⟩ := ok_of_bind done
  split at done
  · cases done
  · rename_i room
    cases added : b.patch ps with
    | none => simp [added] at done
    | some patched =>
      rw [added, Option.elim_some] at done
      cases done
      exact ⟨b, ps, buffer, made, by simpa using room, added⟩

theorem applyTo_keeps {next : Bench} {id : Nat} (keeps : s.Keeps bench past)
    (done : s.applyTo bench id (f.edits.filter (·.range.file == id)) = .ok next) :
    s.Keeps next fun i origin => past i origin ++ if i = id then s.patchesOf id origin f else [] := by
  rw [applyTo_eq] at done
  obtain ⟨patched, staged, done⟩ := ok_of_bind done
  cases done
  obtain ⟨b, ps, buffer, made, room, added⟩ := stage_ok staged
  have before : s.openFile id = .ok (Buffer.ofContent b.origin) ∧ b.Holds (past id b.origin) ∧
      b.edits = (past id b.origin).length := by
    unfold bufferFor at buffer
    cases found : bench.lookup id with
    | some c =>
      rw [found] at buffer
      cases buffer
      exact keeps.opened id b found
    | none =>
      rw [found] at buffer
      have fresh := openFile_eq buffer
      rw [fresh] at buffer
      rw [keeps.untouched id b.origin found, fresh]
      exact ⟨buffer, Buffer.ofContent_holds _, rfl⟩
  obtain ⟨opened, holds, edits⟩ := before
  have bounds : ∀ q ∈ ps, q.start ≤ q.stop ∧ q.stop ≤ b.origin.length :=
    ((List.forall₂_and_left _ _).mp
      ((mapM_ok made).flip.imp fun _ _ here => ⟨patchFor_bounds here, here⟩)).1
  have these : s.patchesOf id b.origin f = ps.mergeSort Patch.rightToLeft := by
    unfold patchesOf
    have same : (f.edits.filter (·.range.file == id)).mapM
        (patchFor (Buffer.ofContent b.origin) (s.pathOf id)) = .ok ps := made
    rw [same]
    rfl
  obtain ⟨held, origin, counted⟩ := Buffer.patch_holds holds bounds room added
  constructor
  · intro i c found
    rw [lookup_setBuffer] at found
    split at found
    · rename_i here
      cases found
      subst here
      rw [if_pos rfl, origin, these, List.length_append, List.length_mergeSort, counted, edits]
      exact ⟨opened, held, rfl⟩
    · rename_i elsewhere
      rw [if_neg elsewhere, List.append_nil]
      exact keeps.opened i c found
  · intro i origin found
    rw [lookup_setBuffer] at found
    split at found
    · cases found
    · rename_i elsewhere
      rw [if_neg elsewhere, List.append_nil]
      exact keeps.untouched i origin found

theorem patchesOf_elsewhere {id : Nat} (elsewhere : id ∉ filesOf f) (origin : Bytes) :
    s.patchesOf id origin f = [] := by
  have none : f.edits.filter (·.range.file == id) = [] := by
    rw [List.filter_eq_nil_iff]
    intro e mem here
    apply elsewhere
    rw [filesOf, List.mem_eraseDups]
    exact List.mem_map.mpr ⟨e, mem, beq_iff_eq.mp here⟩
  simp [patchesOf, none, Except.toOption, pure, Except.pure]

theorem files_keep {next : Bench} {files : List Nat}
    (distinct : files.Nodup) (keeps : s.Keeps bench past)
    (done : files.foldlM (fun bench id => s.applyTo bench id (f.edits.filter (·.range.file == id)))
      bench = .ok next) :
    s.Keeps next fun i origin =>
      past i origin ++ if i ∈ files then s.patchesOf i origin f else [] := by
  induction files generalizing bench past with
  | nil =>
    cases done
    simpa using keeps
  | cons id files ih =>
    obtain ⟨fresh, distinct⟩ := List.nodup_cons.mp distinct
    rw [List.foldlM_cons] at done
    obtain ⟨mid, first, done⟩ := ok_of_bind done
    have all := ih distinct (applyTo_keeps keeps first) done
    have same : (fun i origin => past i origin ++ if i ∈ id :: files then s.patchesOf i origin f
        else []) = fun i origin => (past i origin ++ if i = id then s.patchesOf id origin f else []) ++
          if i ∈ files then s.patchesOf i origin f else [] := by
      funext i origin
      by_cases here : i = id
      · subst here
        simp [fresh]
      · simp [here]
    rw [same]
    exact all

theorem apply_keeps {next : Bench}
    (keeps : s.Keeps bench past) (done : s.apply bench f = .ok next) :
    s.Keeps next fun i origin => past i origin ++ s.patchesOf i origin f := by
  have all := files_keep (eraseDups_nodup _) keeps done
  have same : (fun i origin => past i origin ++ s.patchesOf i origin f) = fun i origin =>
      past i origin ++ if i ∈ filesOf f then s.patchesOf i origin f else [] := by
    funext i origin
    split
    · rfl
    · rename_i elsewhere
      rw [patchesOf_elsewhere elsewhere]
  rw [same]
  exact all

theorem step_keeps (keeps : s.Keeps p.bench (s.history p.applied)) (c : Candidate) :
    s.Keeps (s.step p c).bench (s.history (s.step p c).applied) := by
  unfold step
  split
  · rename_i bench done
    have same : s.history (p.applied ++ [⟨c, c.fix.edits.length⟩]) = fun i origin =>
        s.history p.applied i origin ++ s.patchesOf i origin c.fix := by
      funext i origin
      simp [history]
    rw [same]
    exact apply_keeps keeps done
  · exact keeps

theorem run_keeps (keeps : s.Keeps p.bench (s.history p.applied)) (cs : List Candidate) :
    s.Keeps (cs.foldl s.step p).bench (s.history (cs.foldl s.step p).applied) := by
  induction cs generalizing p with
  | nil => exact keeps
  | cons c cs ih => exact ih (step_keeps keeps c)

/-- After any run of fixes, an edited file has all edits of the applied fixes, no two of them overlap,
and its text is the original with all of them put in at once exactly if no fix swallowed an
insertion. -/
theorem working_eq_substitute_iff (s : Shop) (skipped : List Skipped) (cs : List Candidate) {id : Nat}
    {b : Buffer} (edited : (cs.foldl s.step { skipped }).bench.lookup id = some b) :
    s.openFile id = .ok (Buffer.ofContent b.origin) ∧
      b.accepted.Perm (s.history (cs.foldl s.step { skipped }).applied id b.origin) ∧
      b.edits = (s.history (cs.foldl s.step { skipped }).applied id b.origin).length ∧
      b.accepted.Pairwise (fun p q => p.overlaps q = false) ∧
      (b.working = substitute b.origin (s.history (cs.foldl s.step { skipped }).applied id b.origin) ↔
        Spared (s.history (cs.foldl s.step { skipped }).applied id b.origin)) := by
  have start : s.Keeps ({ skipped } : Progress).bench (s.history ({ skipped } : Progress).applied) :=
    ⟨fun _ _ found => (by cases found), fun _ _ _ => rfl⟩
  obtain ⟨opened, holds, counted⟩ := (run_keeps start cs).opened id b edited
  refine ⟨opened, holds.accepted, counted, ?_, ?_, holds.exact⟩
  · refine (holds.accepted.pairwise_iff ?_).mpr holds.taken.apart
    intro p q away
    rw [Patch.overlaps_comm, away]
  · intro equal
    by_contra lost
    have := holds.short lost
    rw [equal] at this
    omega

end Shop

namespace Sample

def alphabet : Bytes := Bytes.ofString "abcdefgh"

def desk : Shop where
  files := (FileSet.addVirtual {} "a" alphabet).1
  read := fun _ => some alphabet
  root := ""

def insertion : Candidate := ⟨default, Fix.insert "" 0 ⟨1, 6⟩ "XYZ", "insertion", ""⟩

def replacement : Candidate :=
  ⟨default, Fix.replace "" ⟨0, ⟨1, 3⟩, ⟨1, 6⟩⟩ "Q" "cde", "replacement", ""⟩

def kept : Progress := [replacement, insertion].foldl desk.step {}

def lost : Progress := [insertion, replacement].foldl desk.step {}

theorem kept_opens : (kept.bench.lookup 0).isSome = true := by decide +kernel

theorem lost_opens : (lost.bench.lookup 0).isSome = true := by decide +kernel

theorem insertion_kept : ∃ b, kept.bench.lookup 0 = some b ∧ kept.applied.length = 2 ∧
    b.working = Bytes.ofString "abQXYZfgh" ∧
    b.working = substitute b.origin (desk.history kept.applied 0 b.origin) :=
  ⟨(kept.bench.lookup 0).get kept_opens, by simp, by decide +kernel, by decide +kernel,
    (Shop.working_eq_substitute_iff desk [] [replacement, insertion]
      (Option.some_get kept_opens).symm).2.2.2.2.mpr (by decide +kernel)⟩

/-- In this order both fixes are applied, and the text of the first is gone. -/
theorem insertion_lost : ∃ b, lost.bench.lookup 0 = some b ∧ lost.applied.length = 2 ∧
    b.working = Bytes.ofString "abQfgh" ∧
    substitute b.origin (desk.history lost.applied 0 b.origin) = Bytes.ofString "abQXYZfgh" :=
  ⟨(lost.bench.lookup 0).get lost_opens, by simp, by decide +kernel, by decide +kernel,
    by decide +kernel⟩

end Sample

end Repair

end Tenure
