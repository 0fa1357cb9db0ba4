import Mathlib.Data.List.Infix
import Mathlib.Data.List.Nodup
import Tenure.Proofs.Accounts

/- Where the changes of a run go, and the files it takes from storage. A file is known by its number and
   stored under its path, and a path may have several numbers; a file that was loaded is compared as it
   was kept with what storage holds. -/
namespace Tenure

def byteOrderMark : Bytes := [0xEF, 0xBB, 0xBF]

def lineEnding : Bytes := [13, 10]

theorem withoutMark_cases (bs : Bytes) :
    (∃ rest, bs = byteOrderMark ++ rest ∧ withoutMark bs = (rest, true)) ∨
      ¬ byteOrderMark <+: bs ∧ withoutMark bs = (bs, false) := by
  unfold withoutMark
  split
  · rename_i rest
    exact .inl ⟨rest, rfl, rfl⟩
  · rename_i none
    refine .inr ⟨?_, rfl⟩
    rintro ⟨rest, rfl⟩
    exact none rest rfl

theorem withoutReturns_eq_self_iff (bs : Bytes) : withoutReturns bs = bs ↔ ¬ lineEnding <:+: bs := by
  fun_induction withoutReturns bs with
  | case1 bs ih => simp [lineEnding, List.infix_cons_iff]
  | case2 b bs other ih =>
    have first : ¬ lineEnding <+: b :: bs := by
      rintro ⟨rest, same⟩
      cases same
      exact other rest rfl rfl
    simp [ih, List.infix_cons_iff, first]
  | case3 => simp [lineEnding]

theorem length_withoutReturns_le (bs : Bytes) : (withoutReturns bs).length ≤ bs.length := by
  fun_induction withoutReturns bs <;> grind

theorem withoutReturns_eq_nil_iff (bs : Bytes) : withoutReturns bs = [] ↔ bs = [] := by
  fun_cases withoutReturns bs <;> simp

/-- What is kept of a content when it is loaded is neither empty nor the content itself. -/
def Rewritten (bs : Bytes) : Prop :=
  bs ≠ byteOrderMark ∧ (byteOrderMark <+: bs ∨ lineEnding <:+: bs)

instance : DecidablePred Rewritten := fun _ => inferInstanceAs (Decidable (_ ∧ (_ ∨ _)))

theorem rewritten_iff (bs : Bytes) : Rewritten bs ↔
    withoutReturns (withoutMark bs).1 ≠ [] ∧ bs ≠ withoutReturns (withoutMark bs).1 := by
  rcases withoutMark_cases bs with ⟨rest, rfl, marked⟩ | ⟨unmarked, plain⟩
  · have longer : byteOrderMark ++ rest ≠ withoutReturns rest := by
      intro same
      have := length_withoutReturns_le rest
      have := congrArg List.length same
      simp only [List.length_append, byteOrderMark, List.length_cons, List.length_nil] at this
      omega
    simp [Rewritten, marked, withoutReturns_eq_nil_iff, longer]
  · have other : bs ≠ byteOrderMark := by
      rintro rfl
      exact unmarked (List.prefix_refl _)
    rw [Rewritten, plain, ne_comm (a := bs) (b := withoutReturns bs), Ne, Ne, Ne, withoutReturns_eq_self_iff,
      withoutReturns_eq_nil_iff, not_not]
    constructor
    · rintro ⟨-, mark | ending⟩
      · exact absurd mark unmarked
      · exact ⟨by rintro rfl; simp [lineEnding] at ending, ending⟩
    · exact fun both => ⟨other, .inr both.2⟩

namespace Repair

variable {s : Shop} {bench : Bench} {id : Nat}

namespace Shop

def targetOf (s : Shop) (id : Nat) : Option String := (s.files.get? id).map s.target

theorem progress_keeps (s : Shop) (ds : List Diagnostic) (choice : Choice) (canceled : Bool) :
    s.Keeps (s.progress ds choice canceled).bench (s.history (s.progress ds choice canceled).applied) :=
  run_keeps ⟨fun _ _ found => (by cases found), fun _ _ _ => rfl⟩ _

theorem opens_of_edits {ds : List Diagnostic} {choice : Choice} {canceled : Bool}
    (edits : Edits (s.progress ds choice canceled).applied id) : ∃ b, s.openFile id = .ok b := by
  have mem := ((s.progress_tally ds choice canceled).mem_iff id).mpr edits
  cases found : (s.progress ds choice canceled).bench.lookup id with
  | none =>
    obtain ⟨entry, on, rfl⟩ := List.mem_map.mp mem
    simpa using List.lookup_eq_none_iff.mp found entry on
  | some b => exact ⟨_, ((s.progress_keeps ds choice canceled).opened id b found).1⟩

theorem targetOf_isSome {b : Buffer} (opens : s.openFile id = .ok b) : (s.targetOf id).isSome := by
  unfold openFile at opens
  split at opens
  · cases opens
  · rename_i f known
    simp [targetOf, known]

theorem run_targets (s : Shop) (ds : List Diagnostic) (choice : Choice) (canceled : Bool) :
    (((s.run ds choice canceled).changes.map (·.url)).map some).Perm
      (((s.progress ds choice canceled).bench.map Prod.fst).map s.targetOf) := by
  have tally := s.progress_tally ds choice canceled
  rw [(s.run_eq ds choice canceled).2.2, changes, List.map_map]
  refine ((List.mergeSort_perm _ _).map _).trans (.of_eq ?_)
  rw [List.filter_eq_self.mpr fun entry mem => decide_eq_true (tally.counted entry mem),
    List.map_filterMap, List.map_map, List.filterMap_eq_map_iff_forall_eq_some]
  intro entry mem
  obtain ⟨b, opens⟩ := opens_of_edits ((tally.mem_iff entry.1).mp (List.mem_map_of_mem mem))
  obtain ⟨target, known⟩ := Option.isSome_iff_exists.mp (targetOf_isSome opens)
  obtain ⟨f, found, rfl⟩ := Option.map_eq_some_iff.mp known
  simp [targetOf, found]

/-- The changes of a run go to different places exactly if the files it edits lie at different places. -/
theorem targets_nodup_iff (s : Shop) (ds : List Diagnostic) (choice : Choice) (canceled : Bool) :
    ((s.run ds choice canceled).changes.map (·.url)).Nodup ↔
      ∀ i j, Edits (s.run ds choice canceled).applied i → Edits (s.run ds choice canceled).applied j →
        s.targetOf i = s.targetOf j → i = j := by
  have tally := s.progress_tally ds choice canceled
  rw [← List.nodup_map_iff (fun _ _ => Option.some.inj), (s.run_targets ds choice canceled).nodup_iff,
    List.nodup_map_iff_inj_on tally.keys, (s.run_eq ds choice canceled).1]
  constructor
  · intro apart i j first second same
    exact apart i ((tally.mem_iff i).mpr first) j ((tally.mem_iff j).mpr second) same
  · intro apart i first j second same
    exact apart i j ((tally.mem_iff i).mp first) ((tally.mem_iff j).mp second) same

end Shop

namespace Sample

def versions : Shop :=
  { desk with files := ((FileSet.addVirtual {} "a" alphabet).1.addVirtual "a" alphabet).1 }

def bothVersions : Diagnostic :=
  { (default : Diagnostic) with fixes := [⟨"", [⟨⟨0, ⟨1, 1⟩, ⟨1, 2⟩⟩, "", ""⟩, ⟨⟨1, ⟨1, 2⟩, ⟨1, 3⟩⟩, "", ""⟩]⟩] }

/-- Both changes go to one place, and one of them is lost there. -/
theorem version_overwritten : (versions.run [bothVersions] .all false).applied.length = 1 ∧
    ¬ ((versions.run [bothVersions] .all false).changes.map (·.url)).Nodup := by
  have facts : (versions.run [bothVersions] .all false).applied.length = 1 ∧
      ¬ (((versions.progress [bothVersions] .all false).bench.map Prod.fst).map
        versions.targetOf).Nodup := by decide +kernel
  refine ⟨facts.1, fun apart => facts.2 ?_⟩
  exact (versions.run_targets [bothVersions] .all false).nodup_iff.mp
    (apart.map fun _ _ => Option.some.inj)

end Sample

namespace Shop

section Loaded

variable {fs : FileSet} {path : String} {content : Bytes}
  (registered : (fs.addLoaded path content).1.files <+: s.files.files)
  (unchanged : s.read (Locator.below s.root (FileSet.normalPath path)) = some content)

include registered unchanged

theorem openFile_loaded : s.openFile (fs.addLoaded path content).2 =
    if Rewritten content then .error (.changed (FileSet.normalPath path))
    else .ok (Buffer.ofContent content) := by
  obtain ⟨f, added, named, kept, authored⟩ : ∃ f, (fs.addLoaded path content).1.files = fs.files ++ [f] ∧
      f.path = FileSet.normalPath path ∧ f.content = withoutReturns (withoutMark content).1 ∧
      f.flags.isGenerated = false := ⟨_, rfl, rfl, rfl, rfl⟩
  obtain ⟨rest, all⟩ := registered
  have found : s.files.get? (fs.addLoaded path content).2 = some f := by
    rw [FileSet.get?, ← all, added]
    simp [FileSet.addLoaded, FileSet.add]
  rw [openFile, found]
  simp only [authored, target, named, unchanged, kept, Bool.false_eq_true, if_false, Bool.and_eq_true,
    Bool.not_eq_true', List.isEmpty_eq_false_iff, bne_iff_ne, rewritten_iff]

end Loaded

theorem mapM_error {α β ε : Type} {f : α → Except ε β} {xs : List α} {e : ε}
    (failed : xs.mapM f = .error e) : ∃ x ∈ xs, f x = .error e := by
  induction xs with
  | nil => cases failed
  | cons x xs ih =>
    rw [List.mapM_cons] at failed
    cases first : f x with
    | error e' =>
      rw [first] at failed
      cases failed
      exact ⟨x, List.mem_cons_self, first⟩
    | ok y =>
      cases rest : xs.mapM f with
      | error e' =>
        rw [first, rest] at failed
        cases failed
        obtain ⟨z, mem, wrong⟩ := ih rest
        exact ⟨z, List.mem_cons_of_mem x mem, wrong⟩
      | ok ys =>
        rw [first, rest] at failed
        cases failed

theorem patchFor_error {b : Buffer} {path : String} {e : Edit} {reason : Reason}
    (failed : patchFor b path e = .error reason) : reason = .unexpectedText := by
  unfold patchFor at failed
  dsimp only at failed
  split at failed <;> cases failed
  rfl

theorem stage_changed {f : Fix} {p : String} (refused : s.stage bench f id = .error (.changed p)) :
    s.openFile id = .error (.changed p) := by
  unfold stage at refused
  cases buffer : s.bufferFor bench id with
  | error e =>
    rw [buffer] at refused
    cases refused
    unfold bufferFor at buffer
    split at buffer
    · cases buffer
    · exact buffer
  | ok b =>
    simp only [buffer, bind, Except.bind] at refused
    split at refused
    · rename_i e failed
      cases refused
      obtain ⟨edit, -, wrong⟩ := mapM_error failed
      cases patchFor_error wrong
    · rename_i ps made
      split at refused
      · cases refused
      · cases added : b.patch ps <;> simp [added] at refused

/-- A file that was loaded, and lies in storage as it did then, is refused as changed exactly if loading
it took out a byte order mark or carriage returns and left something. No fix of it is then applied. -/
theorem loaded_refused_iff (s : Shop) (fs : FileSet) (path : String) (content : Bytes)
    (registered : (fs.addLoaded path content).1.files <+: s.files.files)
    (unchanged : s.read (Locator.below s.root (FileSet.normalPath path)) = some content) :
    (Rewritten content →
      (∀ bench f, bench.lookup (fs.addLoaded path content).2 = none →
        s.stage bench f (fs.addLoaded path content).2 = .error (.changed (FileSet.normalPath path))) ∧
      ∀ ds choice canceled,
        ¬ Edits (s.run ds choice canceled).applied (fs.addLoaded path content).2) ∧
    (¬ Rewritten content → ∀ bench f p,
      s.stage bench f (fs.addLoaded path content).2 ≠ .error (.changed p)) := by
  have opens := openFile_loaded registered unchanged
  constructor
  · intro rewritten
    rw [if_pos rewritten] at opens
    constructor
    · intro bench f absent
      rw [stage, bufferFor, absent]
      dsimp only
      rw [opens]
      rfl
    · intro ds choice canceled edits
      rw [(s.run_eq ds choice canceled).1] at edits
      obtain ⟨b, opened⟩ := opens_of_edits edits
      rw [opens] at opened
      cases opened
  · intro plain bench f p refused
    rw [if_neg plain, stage_changed refused] at opens
    cases opens

end Shop

namespace Sample

def untouched (content : Bytes) : Shop where
  files := (FileSet.addLoaded {} "a" content).1
  read := fun _ => some content
  root := ""

theorem endings_refused :
    (∀ ds choice canceled, ¬ Shop.Edits ((untouched [97, 13, 10]).run ds choice canceled).applied 0) ∧
      ∀ bench f p, (untouched [97, 10]).stage bench f 0 ≠ .error (.changed p) :=
  ⟨((Shop.loaded_refused_iff (untouched [97, 13, 10]) {} "a" [97, 13, 10] (List.prefix_refl _) rfl).1
      (by decide)).2,
    (Shop.loaded_refused_iff (untouched [97, 10]) {} "a" [97, 10] (List.prefix_refl _) rfl).2 (by decide)⟩

/-- A fix of a file that nobody has touched, refused because the file has changed. -/
theorem untouched_refused :
    let o := (untouched [97, 13, 10]).run
      [{ (default : Diagnostic) with fixes := [Fix.insert "" 0 ⟨1, 1⟩ "b"] }] .all false
    o.applied.length = 0 ∧ o.skipped.map (·.reason) = [.changed "a"] := by decide +kernel

end Sample

end Repair

end Tenure
