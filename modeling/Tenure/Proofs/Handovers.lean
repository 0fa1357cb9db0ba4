import Tenure.Proofs.Builds
import Tenure.Proofs.CleanUnits

/- What a build hands to the toolchain. Units are due in their order, except for those that failed; each
   is handed over when its directory can be made, and a build that cannot make one ends with a fault. -/
namespace Tenure.Build

section Handed

variable {n : NativeSettings} {first middle last : Disk} {due more given further : List BuildJob}

theorem Handed.all (handed : Handed n first last due given) (free : ∀ job ∈ due, job.dir.isEmpty = true) :
    given = due := by
  induction handed with
  | none => rfl
  | given called ready _ ih =>
    rw [List.forall_mem_cons] at free
    rw [ih free.2]
  | refused full _ _ =>
    rw [List.forall_mem_cons] at free
    rw [room, if_pos free.1] at full
    cases full

end Handed

def UnitBuild.job? (n : NativeSettings) (b : UnitBuild) : Option BuildJob :=
  if b.skipped then none else b.unit.unit.map (jobFor n b.unit)

section Runs

variable {n : NativeSettings}

variable {c : Compiled} {units : List Compiled}

theorem isSome_of_failed (failed : c.failed = false) : c.unit.isSome = true := by
  rw [Compiled.failed, Bool.or_eq_false_iff] at failed
  simpa using failed.1

theorem due_units (units : List Compiled) :
    (dueOf units).map (fun w => (w.1, false)) = (units.filter (!·.failed)).map fun c => (c, c.failed) := by
  induction units with
  | nil => rfl
  | cons c cs ih =>
    cases failed : c.failed with
    | true => simpa [dueOf, failed] using ih
    | false =>
      obtain ⟨u, unit⟩ := Option.isSome_iff_exists.mp (isSome_of_failed failed)
      simpa [dueOf, failed, unit] using ih

theorem inOrder_units {builds : List UnitBuild} (built : builds.map (fun b => (b.unit, b.skipped)) =
      (units.filter (!·.failed)).map fun c => (c, c.failed)) :
    (inOrder units builds).map (fun b => (b.unit, b.skipped)) = units.map fun c => (c, c.failed) := by
  induction units generalizing builds with
  | nil => rfl
  | cons c cs ih =>
    unfold inOrder
    cases failed : c.failed with
    | true =>
      rw [List.filter_cons_of_neg (by simp [failed])] at built
      simp [failed, ih built]
    | false =>
      rw [List.filter_cons_of_pos (by simp [failed]), List.map_cons] at built
      cases builds with
      | nil => cases built
      | cons b bs =>
        rw [List.map_cons, List.cons.injEq] at built
        simp [built.1, failed, ih built.2]

section Marked

variable {builds : List UnitBuild} {units : List Compiled}
  (marked : builds.map (fun b => (b.unit, b.skipped)) = units.map fun c => (c, c.failed))

include marked

theorem failed_of_mem {b : UnitBuild} (mem : b ∈ builds) :
    b.unit ∈ units ∧ b.unit.failed = b.skipped := by
  have pair := List.mem_map_of_mem (f := fun b : UnitBuild => (b.unit, b.skipped)) mem
  rw [marked] at pair
  obtain ⟨c, member, same⟩ := List.mem_map.mp pair
  obtain ⟨rfl, skipped⟩ := Prod.mk.inj same
  exact ⟨member, skipped⟩

theorem job_of_mem {b : UnitBuild} (mem : b ∈ builds) : (b.job? n).isSome = !b.skipped := by
  have failed := (failed_of_mem marked mem).2
  unfold UnitBuild.job?
  cases skipped : b.skipped with
  | true => rfl
  | false => simpa using isSome_of_failed (failed.trans skipped)

theorem due_jobs : builds.filterMap (UnitBuild.job? n) = (dueOf units).map (Due.job n) := by
  let job (w : Compiled × Bool) : Option BuildJob := if w.2 then none else w.1.unit.map (jobFor n w.1)
  calc builds.filterMap (UnitBuild.job? n)
      = (builds.map fun b => (b.unit, b.skipped)).filterMap job := by rw [List.filterMap_map]; rfl
    _ = (units.map fun c => (c, c.failed)).filterMap job := by rw [marked]
    _ = (dueOf units).map (Due.job n) := by
      rw [List.filterMap_map, dueOf, List.map_filterMap]
      refine List.filterMap_congr fun c _ => ?_
      cases failed : c.failed <;> simp [job, Due.job, Function.comp_def, failed]

end Marked

theorem dir_of_due (outside : n.outDir.isEmpty = true) {job : BuildJob}
    (mem : job ∈ (dueOf units).map (Due.job n)) : job.dir.isEmpty = true := by
  obtain ⟨w, -, rfl⟩ := List.mem_map.mp mem
  simp only [Due.job, jobFor, outside, if_true]
  rfl

end Runs

section Ends

variable {q : Request} {n : NativeSettings} {storage : Storage} {s : Shop}
  (going : (compile q storage s).fault = none)

include going

theorem build_progresses : ∃ r,
    Progresses q n { compile := compile q storage s, disk := storage.disk } r
        (dueOf (compile q storage s).compiled) ∧
      (build q n storage s).builds = inOrder (compile q storage s).compiled r.builds ∧
      (build q n storage s).jobs = r.jobs ∧
      ((build q n storage s).compile.fault = none → r.trouble = none) := by
  refine ⟨_, buildUnits_start (compile q storage s) storage.disk (compile q storage s).compiled, ?_⟩
  unfold build
  dsimp only
  rw [if_neg (by simp [going])]
  split
  · exact ⟨rfl, rfl, fun calm => (by cases calm)⟩
  · rename_i calm
    exact ⟨rfl, rfl, fun _ => calm⟩

theorem build_hasErrors {found : Bag} (held : (compile q storage s).bag = some found)
    (some : found.items ≠ []) :
    ∃ bag, (build q n storage s).compile.bag = .some bag ∧ bag.hasErrors = true := by
  obtain ⟨b, own, merged⟩ := compile_merged going
  obtain rfl : b = found := Option.some.inj (own.symm.trans held)
  have run := buildUnits_start (q := q) (n := n) (compile q storage s) storage.disk
    (compile q storage s).compiled
  unfold build
  dsimp only
  rw [if_neg (by simp [going])]
  split
  · obtain ⟨d, mem⟩ := List.exists_mem_of_ne_nil _ some
    refine ⟨b, run.bag.trans held, Bag.hasErrors_iff.mpr ⟨d, mem, ?_⟩⟩
    rw [Diagnostic.isError, merged.grave d mem]
    rfl
  · refine ⟨_, by rw [run.bag, held]; rfl, ?_⟩
    exact (merged.hasErrors_iff _).mpr (.inl some)

end Ends

def Visit.build (v : Visit) (n : NativeSettings) (cache : Option Cache) : BuildRun :=
  Build.build v.request n v.storage { files := v.files, cache }

/-- However the cache was filled and however few findings are kept, a build skips exactly the documents
that cannot be read or decoded or whose analysis finds something, and an error is found if there is one.
The others are handed over in their order, each if its directory can be made; without an output
directory, and in a build that ends without a fault, that is all of them. -/
theorem build_hands_over_clean (visits : List Visit) (start : Option Cache)
    (fresh : ∀ c ∈ start, c.slots = []) (v : Visit) (n : NativeSettings) {urls : List String}
    (found : discover v.storage v.request.inputs = .ok urls) (going : v.request.canceled = false)
    (free : Hash.CollisionFree ((v :: visits).flatMap Visit.texts))
    (complete : ∀ url ∈ urls, v.completes url = true) (run : BuildRun)
    (ran : run = v.build n (Visit.cacheAfter start visits)) :
    run.builds.map (fun b => (b.unit.url, b.skipped)) = urls.map (fun url => (url, !v.isClean url)) ∧
      (∀ b ∈ run.builds, (b.job? n).isSome = !b.skipped) ∧
      (∃ last, Handed n v.storage.disk last (run.builds.filterMap (UnitBuild.job? n)) run.jobs) ∧
      (n.outDir.isEmpty = true ∨ run.compile.fault = none →
        run.jobs = run.builds.filterMap (UnitBuild.job? n)) ∧
      ((∃ b ∈ run.builds, b.skipped = true) →
        ∃ bag, run.compile.bag = some bag ∧ bag.hasErrors = true) := by
  subst ran
  unfold Visit.build
  have known {w : Visit} (mem : w ∈ v :: visits) : w.texts ⊆ (v :: visits).flatMap Visit.texts :=
    fun t digested => List.mem_flatMap.mpr ⟨w, mem, digested⟩
  have vouched : ∀ c ∈ Visit.cacheAfter start visits,
      Vouched ((v :: visits).flatMap Visit.texts) c := by
    refine Visit.cacheAfter_vouched ?_ fun w mem => known (List.mem_cons_of_mem _ mem)
    intro c mem key u slot
    simp [fresh c mem] at slot
  obtain ⟨whole, -, bag⟩ := Visit.compile_units found going (Visit.cacheAfter start visits)
  have decided := Visit.compiled_decided found going free (known List.mem_cons_self) vouched complete
  obtain ⟨r, progresses, builds, jobs, calm⟩ := build_progresses (n := n) whole
  obtain ⟨bs, added, units, -⟩ := progresses.builds
  obtain ⟨given, handed, turns, finished⟩ := progresses.jobs
  -- the run is built from the units that are due; its builds are then put among the skipped ones
  have marked := inOrder_units (units.trans (due_units _))
  rw [List.nil_append] at added handed
  rw [← added, ← builds] at marked
  rw [← handed, ← jobs, ← due_jobs marked] at turns finished
  refine ⟨?_, fun b mem => job_of_mem marked mem, ⟨_, turns⟩, ?_, ?_⟩
  · have named := congrArg (List.map fun p : Compiled × Bool => (p.1.url, p.2)) marked
    rw [List.map_map, List.map_map] at named
    exact named.trans (Call.marks_of_decided decided)
  · rintro (outside | whole)
    · refine turns.all fun job mem => ?_
      rw [due_jobs marked] at mem
      exact dir_of_due outside mem
    · exact finished (calm whole)
  · rintro ⟨b, mem, skipped⟩
    obtain ⟨member, failed⟩ := failed_of_mem marked mem
    have some := Call.found_of_decided decided member (failed.trans skipped)
    exact build_hasErrors whole bag (mergedBag_ne_nil member some)

namespace Sample

def shelf : Visit where
  request := { inputs := ["/a.kast.json", "/b.kast.json"] }
  storage := { disk := { nodes := [
    ("/a.kast.json", .file (Bytes.ofString "\x7b\"file\":\"a\"\x7d")),
    ("/b.kast.json", .file (Bytes.ofString "\x7b\"file\":"))] } }

def shelfUrls : List String := ["file://localhost/a.kast.json", "file://localhost/b.kast.json"]

theorem shelf_found : discover shelf.storage shelf.request.inputs = .ok shelfUrls := by
  have each : shelf.request.inputs.mapM (documentsAt shelf.storage) = .ok (shelfUrls.map ([·])) := by
    rfl
  have sorted : shelfUrls.mergeSort (fun a b => a ≤ b) = shelfUrls :=
    List.mergeSort_of_pairwise (by decide +kernel)
  unfold discover
  rw [each]
  exact congrArg Except.ok sorted

theorem shelf_free : Hash.CollisionFree ([shelf, shelf].flatMap Visit.texts) := by
  have broken : (shelf.call {} "file://localhost/b.kast.json").keyText? = none :=
    Option.isNone_iff_eq_none.mp (by decide +kernel)
  have only : ∀ t ∈ [shelf, shelf].flatMap Visit.texts,
      (shelf.call {} "file://localhost/a.kast.json").keyText? = some t := by
    intro t mem
    obtain ⟨v, twice, mem⟩ := List.mem_flatMap.mp mem
    obtain rfl : v = shelf := by simpa using twice
    obtain ⟨url, known, digested⟩ := List.mem_filterMap.mp mem
    rw [Visit.urls, shelf_found] at known
    rcases List.mem_pair.mp known with rfl | rfl
    · exact digested
    · rw [broken] at digested
      cases digested
  intro a ha b hb _
  exact Option.some.inj ((only a ha).symm.trans (only b hb))

end Sample

theorem shelf_skips_broken :
    ∃ run, run = Sample.shelf.build Sample.grumbling (Visit.cacheAfter (some {}) [Sample.shelf]) ∧
      run.builds.map (fun b => (b.unit.url, b.skipped)) =
        [("file://localhost/a.kast.json", false), ("file://localhost/b.kast.json", true)] ∧
      (∃ job, run.jobs = [job]) ∧ ∃ bag, run.compile.bag = some bag ∧ bag.hasErrors = true := by
  obtain ⟨marks, jobs, -, all, errors⟩ := build_hands_over_clean [Sample.shelf] (some {})
    (fun _ mem => by cases mem; rfl) Sample.shelf Sample.grumbling Sample.shelf_found rfl
    Sample.shelf_free (by decide +kernel) _ rfl
  have clean : Sample.shelfUrls.map (fun url => (url, !Sample.shelf.isClean url)) =
      [("file://localhost/a.kast.json", false), ("file://localhost/b.kast.json", true)] := by
    decide +kernel
  rw [clean] at marks
  refine ⟨_, rfl, marks, ?_⟩
  have handed := all (.inl rfl)
  obtain ⟨a, rest, shape, first, marks⟩ := List.map_eq_cons_iff.mp marks
  obtain ⟨b, rest, rfl, second, marks⟩ := List.map_eq_cons_iff.mp marks
  obtain rfl := List.map_eq_nil_iff.mp marks
  rw [shape] at handed jobs errors
  have due : (a.job? Sample.grumbling).isSome = true := by
    rw [jobs a (by simp), (Prod.mk.inj first).2]
    rfl
  have skipped : b.skipped = true := (Prod.mk.inj second).2
  have none : b.job? Sample.grumbling = none := by rw [UnitBuild.job?, skipped, if_pos rfl]
  obtain ⟨job, due⟩ := Option.isSome_iff_exists.mp due
  refine ⟨⟨job, ?_⟩, errors ⟨b, by simp, skipped⟩⟩
  simp only [handed, List.filterMap_cons, due, none, List.filterMap_nil]

namespace Sample

def hindered : Visit where
  request := { inputs := ["/a.kast.json"] }
  storage := { disk := { nodes := page.disk.nodes ++ [("/out", .file [])] } }

end Sample

/-- Where the directory of a unit cannot be made, a clean unit is neither handed over nor skipped. -/
theorem clean_not_handed_over :
    let run := Sample.hindered.build { Sample.grumbling with outDir := "/out" } none
    Sample.hindered.isClean "file://localhost/a.kast.json" = true ∧ run.jobs.length = 0 ∧
      run.builds.map (fun b => (b.unit.url, b.skipped)) = [("file://localhost/a.kast.json", false)] ∧
      run.compile.fault.isSome = true := by
  decide +kernel

end Tenure.Build
