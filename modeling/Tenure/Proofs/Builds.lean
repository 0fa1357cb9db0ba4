import Tenure.Proofs.Findings

/- Native builds from the first document to the last finding. Compiling finds nothing but errors, so
   whether a build ends with an error is a matter of what the toolchain said first. -/
namespace Tenure.Build

section Compiling

variable {o : Settings} {read : String → Except String Bytes}

theorem compileUnit_findings (s : Shop) (url : String) :
    ∀ d ∈ (compileUnit o read s url).result.bag.items, d.severity = .error := by
  have one {d e : Diagnostic} (mem : d ∈ (Bag.add { limit := o.limit } e).items) : d = e := by
    unfold Bag.add at mem
    split at mem
    · cases mem
    · exact List.mem_singleton.mp mem
  intro d mem
  unfold compileUnit at mem
  split at mem
  · rw [one mem]
    rfl
  · split at mem
    · rw [one mem]
      rfl
    · dsimp only at mem
      split at mem
      · cases mem
      · simp only [compileModule] at mem
        rw [Bag.mem_sort, Bag.addAll_items (Bag.sized_empty _)] at mem
        exact (analysis_findings (mem_of_mem_fitting mem)).1

theorem compileUnits_findings (s : Shop) (urls : List String) :
    ∀ r ∈ (compileUnits o read s urls).2, ∀ d ∈ r.result.bag.items, d.severity = .error := by
  induction urls generalizing s with
  | nil =>
    intro r mem
    cases mem
  | cons url urls ih =>
    intro r mem
    rcases List.mem_cons.mp mem with rfl | later
    · exact compileUnit_findings s url
    · exact ih _ r later

end Compiling

section Merging

structure Merged (limit : Int) (b : Bag) : Prop where
  grave : ∀ d ∈ b.items, d.severity = .error
  sized : b.Sized
  limit : b.items = [] → b.limit = limit

theorem Merged.merge {limit : Int} {b other : Bag} (merged : Merged limit b)
    (grave : ∀ d ∈ other.items, d.severity = .error) : Merged limit (b.merge other) := by
  constructor
  · intro d mem
    rcases List.mem_append.mp mem with old | new
    · exact merged.grave d old
    · exact grave d new
  · intro limited
    unfold Bag.merge at limited ⊢
    dsimp only at limited ⊢
    split
    · omega
    · rename_i unlimited
      rw [if_neg unlimited] at limited
      exact absurd limited unlimited
  · intro none
    have empty := List.append_eq_nil_iff.mp none
    have same := merged.limit empty.1
    simp only [Bag.merge, empty.1, empty.2, List.append_nil, List.length_nil, same]
    split <;> omega

theorem items_of_dedup_sort {b : Bag} (none : b.dedup.sort.items = []) : b.items = [] := by
  have empty : firstOfEach [] b.items = [] := by
    have same := List.mergeSort_perm (firstOfEach [] b.items) Diagnostic.le
    exact List.perm_nil.mp (none ▸ same.symm)
  cases items : b.items with
  | nil => rfl
  | cons d ds =>
    rw [items] at empty
    cases empty

theorem foldl_merge_items (units : List Compiled) (b : Bag) :
    (units.foldl (fun b c => Bag.merge b c.bag) b).items = b.items ++ units.flatMap (·.bag.items) := by
  induction units generalizing b with
  | nil => simp
  | cons c cs ih => rw [List.foldl_cons, ih, Bag.merge, List.append_assoc, List.flatMap_cons]

theorem mergedBag_ne_nil {limit : Int} {units : List Compiled} {c : Compiled} (mem : c ∈ units)
    (found : c.bag.items ≠ []) : (mergedBag limit units).items ≠ [] := by
  intro none
  have empty := items_of_dedup_sort none
  rw [foldl_merge_items, List.append_eq_nil_iff, List.flatMap_eq_nil_iff] at empty
  exact found (empty.2 c mem)

theorem mergedBag_merged (limit : Int) (units : List Compiled)
    (grave : ∀ c ∈ units, ∀ d ∈ c.bag.items, d.severity = .error) :
    Merged limit (mergedBag limit units) := by
  have merged : Merged limit (units.foldl (fun b c => Bag.merge b c.bag) { limit }) :=
    List.foldlRecOn units _ ⟨fun _ mem => (by cases mem), Bag.sized_empty limit, fun _ => rfl⟩
      fun _ merged c mem => merged.merge (grave c mem)
  unfold mergedBag
  dsimp only
  generalize units.foldl (fun b c => Bag.merge b c.bag) { limit } = b at merged ⊢
  constructor
  · intro d mem
    have kept := Bag.mem_sort.mp mem
    rw [Bag.dedup, firstOfEach_eq] at kept
    exact merged.grave d ((firsts_sublist _ _ _).subset kept)
  · intro limited
    have fits := merged.sized limited
    have fewer := (firsts_sublist Diagnostic.key [] b.items).length_le
    simp only [Bag.sort, Bag.dedup, List.length_mergeSort, firstOfEach_eq]
    omega
  · exact fun none => merged.limit (items_of_dedup_sort none)

theorem compile_merged {q : Request} {storage : Storage} {s : Shop}
    (finished : (compile q storage s).fault = none) :
    ∃ b, (compile q storage s).bag = some b ∧ Merged q.settings.limit b := by
  unfold compile at finished ⊢
  dsimp only at finished ⊢
  split at finished
  · cases finished
  · rename_i given
    rw [if_neg given]
    split at finished
    · cases finished
    · split at finished
      · cases finished
      · rename_i done
        refine ⟨_, rfl, mergedBag_merged _ _ ?_⟩
        intro c mem
        obtain ⟨r, member, rfl⟩ := List.mem_map.mp mem
        exact compileUnits_findings s _ r ((compileAll_eq_some done).2 ▸ member)

end Merging

section Telling

theorem tell_start (catalog : Catalog) (files : FileSet) (u : Generated) (limit : Int)
    (d : RawDiagnostic) :
    (Relay.start catalog files u limit).tell d = (Relay.start catalog {} u limit).tell d := by
  have here : (Relay.start catalog files u limit).locate d =
      (Relay.start catalog {} u limit).locate d := by
    simp [Relay.locate, Relay.start, FileSet.addGenerated, FileSet.add, FileSet.spanOfChars,
      FileSet.spanOf, FileSet.get?]
  simp only [Relay.tell, here]
  rfl

inductive Told (q : Request) (n : NativeSettings) (b : UnitBuild) : Prop
  | unbuilt : b.outcome = none → b.told = [] → Told q n b
  | refused (o : BuildOutcome) (d : Diagnostic) :
      b.outcome = some o → b.told = [d] → d.isError = true → Told q n b
  | relayed (o : BuildOutcome) (u : Generated) (files : FileSet) :
      b.outcome = some o → b.unit.unit = some u →
      (∃ job called disk, (n.invoke job called disk).answer = .ok o) →
      b.told = Relay.tellAll { Relay.start n.catalog files u q.settings.limit with
        records := o.records, phase := .received } → Told q n b

def room (job : BuildJob) (disk : Disk) : Except Disk.Fault Disk :=
  if job.dir.isEmpty then .ok disk else disk.makeDirs job.dir

/-- Jobs that are due one after the other, from a first to a last disk: the toolchain is given those for
which there is room on the disk as it stands then. -/
inductive Handed (n : NativeSettings) : Disk → Disk → List BuildJob → List BuildJob → Prop where
  | none (disk : Disk) : Handed n disk disk [] []
  | given {disk ready last : Disk} {job : BuildJob} {due given : List BuildJob} (called : Bool) :
      room job disk = .ok ready → Handed n (n.invoke job called ready).disk last due given →
      Handed n disk last (job :: due) (job :: given)
  | refused {disk last : Disk} {job : BuildJob} {due given : List BuildJob} {f : Disk.Fault} :
      room job disk = .error f → Handed n disk last due given → Handed n disk last (job :: due) given

abbrev Due := Compiled × Generated

def Due.job (n : NativeSettings) (w : Due) : BuildJob := jobFor n w.1 w.2

def dueOf (units : List Compiled) : List Due :=
  units.filterMap fun c => (if c.failed then none else c.unit).map (c, ·)

structure Progresses (q : Request) (n : NativeSettings) (r s : BuildRun) (due : List Due) : Prop where
  bag : s.compile.bag = r.compile.bag
  builds : ∃ bs, s.builds = r.builds ++ bs ∧
    bs.map (fun b => (b.unit, b.skipped)) = due.map (fun w => (w.1, false)) ∧ ∀ b ∈ bs, Told q n b
  jobs : ∃ given, s.jobs = r.jobs ++ given ∧ Handed n r.disk s.disk (due.map (Due.job n)) given ∧
    (s.trouble = none → given = due.map (Due.job n))
  trouble : s.trouble = none → r.trouble = none

variable {q : Request} {n : NativeSettings} {r s t : BuildRun} {due more : List Due}

theorem Handed.append {first middle last : Disk} {due more given further : List BuildJob}
    (front : Handed n first middle due given) (back : Handed n middle last more further) :
    Handed n first last (due ++ more) (given ++ further) := by
  induction front with
  | none => exact back
  | given called ready _ ih => exact .given called ready (ih back)
  | refused full _ ih => exact .refused full (ih back)

theorem Progresses.append (front : Progresses q n r s due) (back : Progresses q n s t more) :
    Progresses q n r t (due ++ more) := by
  obtain ⟨bs, first, units, told⟩ := front.builds
  obtain ⟨cs, second, others, later⟩ := back.builds
  obtain ⟨given, jobs, handed, all⟩ := front.jobs
  obtain ⟨further, after, rest, whole⟩ := back.jobs
  constructor
  · exact back.bag.trans front.bag
  · exact ⟨bs ++ cs, by rw [second, first, List.append_assoc], by simp [units, others],
      List.forall_mem_append.mpr ⟨told, later⟩⟩
  · refine ⟨given ++ further, by rw [after, jobs, List.append_assoc], ?_, ?_⟩
    · rw [List.map_append]
      exact handed.append rest
    · intro calm
      rw [all (back.trouble calm), whole calm, List.map_append]
  · exact fun calm => front.trouble (back.trouble calm)

theorem time_eq (r : BuildRun) (stage : Stage) :
    ∃ timed, r.time stage = { r with compile := { r.compile with timed } } := by
  unfold BuildRun.time
  split <;> exact ⟨_, rfl⟩

theorem giveUp_trouble (r : BuildRun) (c : Compiled) (file : String) (f : Fault) :
    (r.giveUp c file f).trouble ≠ none := by
  cases trouble : r.trouble <;> simp [BuildRun.giveUp, BuildRun.say, trouble]

structure Adds (q : Request) (n : NativeSettings) (c : Compiled) (r s : BuildRun) : Prop where
  bag : s.compile.bag = r.compile.bag
  build : ∃ b, s.builds = r.builds ++ [b] ∧ (b.unit, b.skipped) = (c, false) ∧ Told q n b
  jobs : s.jobs = r.jobs
  disk : s.disk = r.disk
  trouble : s.trouble = none → r.trouble = none

variable {c : Compiled} {u : Generated} (unit : c.unit = some u)

include unit

theorem relayAnswer_adds (file : String) (files : FileSet) {answer : Except ToolFault BuildOutcome}
    (said : ∃ job called disk, (n.invoke job called disk).answer = answer) (r : BuildRun) :
    Adds q n c r (relayAnswer c u file (Relay.start n.catalog files u q.settings.limit) answer r) := by
  obtain ⟨timed, native⟩ := time_eq r .native
  unfold relayAnswer
  dsimp only
  rw [native]
  split
  · exact ⟨rfl, ⟨_, rfl, rfl, .refused _ _ rfl rfl rfl⟩, rfl, rfl, id⟩
  · exact ⟨rfl, ⟨_, rfl, rfl, .unbuilt rfl rfl⟩, rfl, rfl,
      fun calm => absurd calm (giveUp_trouble _ _ _ _)⟩
  · obtain ⟨later, relayed⟩ := time_eq (BuildRun.say _ _) .relay
    rw [relayed]
    exact ⟨rfl, ⟨_, rfl, rfl, .relayed _ u files rfl unit said rfl⟩, rfl, rfl, id⟩

theorem buildUnit_progresses (r : BuildRun) : Progresses q n r (buildUnit q n c u r) [(c, u)] := by
  unfold buildUnit
  dsimp only
  split
  · rename_i full
    refine ⟨rfl, ⟨[_], rfl, rfl, List.forall_mem_singleton.mpr (.unbuilt rfl rfl)⟩,
      ⟨[], (List.append_nil _).symm, .refused full (.none _), ?_⟩, ?_⟩ <;>
      exact fun calm => absurd calm (giveUp_trouble _ _ _ _)
  · rename_i ready
    obtain ⟨bag, ⟨b, builds, own, told⟩, jobs, disk, trouble⟩ :=
      relayAnswer_adds unit _ _ ⟨_, _, _, rfl⟩ _
    refine ⟨bag, ⟨[b], builds, congrArg (fun p => [p]) own, List.forall_mem_singleton.mpr told⟩,
      ⟨[jobFor n c u], jobs, .given r.trouble.isSome ready ?_, fun _ => rfl⟩, trouble⟩
    rw [disk]
    exact .none _

omit unit

theorem buildUnits_progresses {waiting : Option Due} (units : ∀ w ∈ waiting, w.1.unit = some w.2)
    (r : BuildRun) (cs : List Compiled) :
    Progresses q n r (buildUnits q n waiting r cs) (waiting.toList ++ dueOf cs) := by
  have wait {waiting : Option Due} (units : ∀ w ∈ waiting, w.1.unit = some w.2) (r : BuildRun) :
      Progresses q n r (buildWaiting q n waiting r) waiting.toList := by
    cases waiting with
    | none =>
      exact ⟨rfl, ⟨[], (List.append_nil _).symm, rfl, List.forall_mem_nil _⟩,
        ⟨[], (List.append_nil _).symm, .none r.disk, fun _ => rfl⟩, id⟩
    | some w => exact buildUnit_progresses (units w rfl) r
  induction cs generalizing waiting r with
  | nil =>
    rw [dueOf, List.filterMap_nil, List.append_nil]
    exact wait units r
  | cons c cs ih =>
    unfold buildUnits
    split
    · rename_i skipped
      rw [dueOf, List.filterMap_cons, skipped]
      have rest := ih units (r.say { file := q.name c.url, stage := .native, status := .skipped })
      exact ⟨rest.bag, rest.builds, rest.jobs, rest.trouble⟩
    · rename_i u due
      have own : ∀ w ∈ some (c, u), w.1.unit = some w.2 := by
        intro w mem
        cases mem
        split at due
        · cases due
        · exact due
      -- what waited is built now, and this unit waits in its place
      rw [dueOf, List.filterMap_cons, due]
      exact (wait units r).append (ih own _)

theorem buildUnits_start (compile : CompileRun) (disk : Disk) (cs : List Compiled) :
    Progresses q n { compile, disk } (buildUnits q n none { compile, disk } cs) (dueOf cs) :=
  buildUnits_progresses (fun _ mem => by cases mem) _ cs

theorem inOrder_told {builds : List UnitBuild} (told : ∀ b ∈ builds, Told q n b)
    (units : List Compiled) : ∀ b ∈ inOrder units builds, Told q n b := by
  induction units generalizing builds with
  | nil =>
    intro b mem
    cases mem
  | cons c cs ih =>
    intro b mem
    unfold inOrder at mem
    split at mem
    · rcases List.mem_cons.mp mem with rfl | later
      · exact .unbuilt rfl rfl
      · exact ih told b later
    · split at mem
      · rcases List.mem_cons.mp mem with rfl | later
        · exact .unbuilt rfl rfl
        · exact ih told b later
      · rcases List.mem_cons.mp mem with rfl | later
        · exact told _ List.mem_cons_self
        · exact ih (fun e member => told e (List.mem_cons_of_mem _ member)) b later

theorem build_bag {storage : Storage} {s : Shop}
    (finished : (build q n storage s).compile.fault = none) :
    (∀ b ∈ (build q n storage s).builds, Told q n b) ∧
      ∃ found, (compile q storage s).bag = some found ∧ Merged q.settings.limit found ∧
        (build q n storage s).compile.bag =
          some (found.addAll ((build q n storage s).builds.flatMap (·.told))).sort := by
  unfold build at finished ⊢
  dsimp only at finished ⊢
  split at finished
  · rename_i stopped
    rw [finished] at stopped
    cases stopped
  · rename_i going
    rw [if_neg going]
    have compiled : (compile q storage s).fault = none := by simpa using going
    obtain ⟨found, bag, merged⟩ := compile_merged compiled
    have run := buildUnits_start (q := q) (n := n) (compile q storage s) storage.disk
      (compile q storage s).compiled
    split at finished
    · cases finished
    · obtain ⟨bs, builds, -, told⟩ := run.builds
      refine ⟨inOrder_told (builds ▸ told) _, found, bag, merged, ?_⟩
      rw [run.bag, bag]
      rfl

theorem told_of_errors (told : Told q n b)
    (errors : ∀ o, b.outcome = some o → ∀ a ∈ o.records, a.severity = .error) :
    ∀ d ∈ b.told, d.isError = true := by
  intro d mem
  cases told with
  | unbuilt _ none =>
    rw [none] at mem
    cases mem
  | refused o e _ one graver =>
    rw [one] at mem
    rw [List.mem_singleton.mp mem]
    exact graver
  | relayed o u files built _ _ said =>
    rw [said] at mem
    exact (Relay.tellAll_of_errors (errors o built)).1 d mem

def Honest (n : NativeSettings) : Prop :=
  ∀ job called disk o, (n.invoke job called disk).answer = .ok o → o.success = false →
    ∃ a ∈ o.records, a.severity = .error

variable {b : UnitBuild} {o : BuildOutcome}

theorem told_of_failed (honest : Honest n) (told : Told q n b) (built : b.outcome = some o)
    (failed : o.success = false) :
    (∃ d, b.told = [d] ∧ d.isError = true) ∨
      ∃ u files, b.unit.unit = some u ∧ (∃ a ∈ o.records, a.severity = .error) ∧
        b.told = Relay.tellAll { Relay.start n.catalog files u q.settings.limit with
          records := o.records, phase := .received } := by
  cases told with
  | unbuilt none _ =>
    rw [built] at none
    cases none
  | refused _ d _ one graver => exact .inl ⟨d, one, graver⟩
  | relayed p u files same unit answered said =>
    rw [built] at same
    cases same
    obtain ⟨job, called, disk, answer⟩ := answered
    exact .inr ⟨u, files, unit, honest job called disk o answer failed, said⟩

theorem told_error_of_errors (honest : Honest n) (told : Told q n b) (built : b.outcome = some o)
    (failed : o.success = false) (errors : ∀ a ∈ o.records, a.severity = .error) : b.told ≠ [] := by
  rcases told_of_failed honest told built failed with ⟨d, one, -⟩ | ⟨u, files, -, ⟨a, record, -⟩, said⟩
  · rw [one]
    exact List.cons_ne_nil _ _
  · rw [said]
    exact (Relay.tellAll_of_errors errors).2 (List.ne_nil_of_mem record)

theorem told_error_of_room (honest : Honest n) (told : Told q n b) (built : b.outcome = some o)
    (failed : o.success = false)
    (room : q.settings.limit ≤ 0 ∨ o.records.length ≤ q.settings.limit)
    (unshadowed : ∀ u, b.unit.unit = some u →
      (Relay.start n.catalog {} u q.settings.limit).Unshadowed o.records) :
    ∃ d ∈ b.told, d.isError = true := by
  rcases told_of_failed honest told built failed with
    ⟨d, one, graver⟩ | ⟨u, files, unit, ⟨a, record, error⟩, said⟩
  · exact ⟨d, by simp [one], graver⟩
  · rw [said]
    refine Relay.tellAll_of_room room ?_ record error
    refine (unshadowed u unit).imp ?_
    intro a b once same graver
    refine once ?_ graver
    unfold Relay.Same at same ⊢
    simp only [← tell_start n.catalog files]
    exact same

end Telling

theorem Merged.hasErrors_iff {limit : Int} {found : Bag} (merged : Merged limit found)
    (told : List Diagnostic) :
    (found.addAll told).sort.hasErrors = true ↔
      found.items ≠ [] ∨ ∃ d ∈ fitting limit told, d.isError = true := by
  simp only [Bag.hasErrors_iff, Bag.mem_sort, Bag.addAll_items merged.sized]
  cases first : found.items with
  | nil => simp [merged.limit first]
  | cons d ds =>
    have graver : d.isError = true := by
      rw [Diagnostic.isError, merged.grave d (by simp [first])]
      rfl
    have kept : d ∈ fitting found.limit (d :: ds ++ told) := by
      unfold fitting
      split
      · rw [List.cons_append, List.take_cons (by omega)]
        exact List.mem_cons_self
      · exact List.mem_cons_self
    simp only [ne_eq, reduceCtorEq, not_false_eq_true, true_or, iff_true]
    exact ⟨d, kept, graver⟩

/-- When the build of a unit is not successful, the findings end with an error if compiling found
anything, or if an error is among the first that are told, as many as the limit lets in. That is so
when nothing but errors is said, and when there is room for all that is said and no error stands
behind a lesser record that counts as the same. -/
theorem failed_build_found (q : Request) (n : NativeSettings) (storage : Storage) (s : Shop)
    (honest : Honest n) (finished : (build q n storage s).compile.fault = none) {b : UnitBuild}
    (mem : b ∈ (build q n storage s).builds) {o : BuildOutcome} (built : b.outcome = some o)
    (failed : o.success = false) :
    ∃ found bag, (compile q storage s).bag = some found ∧
      (build q n storage s).compile.bag = some bag ∧
      (bag.hasErrors = true ↔ found.items ≠ [] ∨
        ∃ d ∈ fitting q.settings.limit ((build q n storage s).builds.flatMap (·.told)),
          d.isError = true) ∧
      ((∀ c ∈ (build q n storage s).builds, ∀ p, c.outcome = some p →
            ∀ a ∈ p.records, a.severity = .error) ∨
          (q.settings.limit ≤ 0 ∨ o.records.length ≤ q.settings.limit ∧
            ((build q n storage s).builds.flatMap (·.told)).length ≤ q.settings.limit) ∧
          (∀ u, b.unit.unit = some u →
            (Relay.start n.catalog {} u q.settings.limit).Unshadowed o.records) →
        bag.hasErrors = true ∧ Command.endingOf bag = .findings) := by
  obtain ⟨told, found, compiled, merged, bag⟩ := build_bag finished
  have exact := merged.hasErrors_iff ((build q n storage s).builds.flatMap (·.told))
  refine ⟨found, _, compiled, bag, exact, ?_⟩
  intro clear
  have reported : ∃ d ∈ fitting q.settings.limit ((build q n storage s).builds.flatMap (·.told)),
      d.isError = true := by
    rcases clear with errors | ⟨room, unshadowed⟩
    · -- the first finding that is told is an error, whichever it is
      have own := told_error_of_errors honest (told b mem) built failed (errors b mem o built)
      obtain ⟨d, here⟩ := List.exists_mem_of_ne_nil _ own
      have some := fitting_ne_nil q.settings.limit
        (List.ne_nil_of_mem (List.mem_flatMap.mpr ⟨b, mem, here⟩))
      obtain ⟨e, kept⟩ := List.exists_mem_of_ne_nil _ some
      obtain ⟨c, member, said⟩ := List.mem_flatMap.mp (mem_of_mem_fitting kept)
      exact ⟨e, kept, told_of_errors (told c member) (errors c member) e said⟩
    · obtain ⟨d, here, graver⟩ := told_error_of_room honest (told b mem) built failed
        (room.imp_right And.left) unshadowed
      refine ⟨d, ?_, graver⟩
      rw [fitting_of_le (room.imp_right And.right)]
      exact List.mem_flatMap.mpr ⟨b, mem, here⟩
  have some := exact.mpr (.inr reported)
  exact ⟨some, by rw [Command.endingOf, if_pos some]⟩

namespace Sample

def page : Storage :=
  { disk := { nodes := [("/a.kast.json", .file (Bytes.ofString "\x7b\"file\":\"a\"\x7d"))] } }

def said : List RawDiagnostic :=
  [{ (default : RawDiagnostic) with severity := .warning, message := "w" },
    { (default : RawDiagnostic) with severity := .error, message := "e" }]

def grumbling : NativeSettings where
  catalog := { entries := [] }
  invoke := fun _ _ disk => { disk, answer := .ok { records := said } }

def ran (limit : Int) : BuildRun :=
  build { inputs := ["/a.kast.json"], settings := { limit } } grumbling page {}

theorem grumbling_honest : Honest grumbling := by
  intro job called disk o answer _
  cases answer
  exact ⟨_, List.mem_cons_of_mem _ List.mem_cons_self, rfl⟩

theorem said_unshadowed (u : Generated) (limit : Int) :
    (Relay.start grumbling.catalog {} u limit).Unshadowed said := by
  refine List.pairwise_pair.mpr ?_
  intro same
  rcases same with ⟨recognized, -⟩ | ⟨-, -, key⟩
  · exact absurd rfl recognized
  · exact absurd (congrArg Relay.RecordKey.message key) (by decide)

def complains (b : UnitBuild) : Bool := b.outcome.any fun o => !o.success && o.records == said

theorem exists_complaint {r : BuildRun} (any : r.builds.any complains = true) :
    ∃ b ∈ r.builds, ∃ o, b.outcome = some o ∧ o.success = false ∧ o.records = said := by
  obtain ⟨b, mem, complaint⟩ := List.any_eq_true.mp any
  unfold complains at complaint
  cases built : b.outcome with
  | none =>
    rw [built] at complaint
    cases complaint
  | some o =>
    rw [built, Option.any_some, Bool.and_eq_true, Bool.not_eq_true', beq_iff_eq] at complaint
    exact ⟨b, mem, o, built, complaint⟩

end Sample

theorem failed_build_found_unlimited :
    ∃ bag, (Sample.ran 0).compile.bag = some bag ∧ bag.hasErrors = true ∧
      Command.endingOf bag = .findings := by
  obtain ⟨b, mem, o, built, failed, records⟩ :=
    Sample.exists_complaint (r := Sample.ran 0) (by decide +kernel)
  obtain ⟨found, bag, -, made, -, clear⟩ :=
    failed_build_found _ Sample.grumbling Sample.page {} Sample.grumbling_honest
      (Option.isNone_iff_eq_none.mp (by decide +kernel)) mem built failed
  refine ⟨bag, made, clear (.inr ⟨.inl (Int.le_refl 0), ?_⟩)⟩
  intro u _
  rw [records]
  exact Sample.said_unshadowed u _

/-- With a limit of one the warning takes the place of the error: the build of the unit fails, and the
command ends as if all were fine. -/
theorem error_crowded_out :
    Honest Sample.grumbling ∧ (Sample.ran 1).compile.fault = none ∧
      (∃ b ∈ (Sample.ran 1).builds, ∃ o, b.outcome = some o ∧ o.success = false) ∧
      ∃ bag, (Sample.ran 1).compile.bag = some bag ∧ bag.hasErrors = false ∧
        Command.endingOf bag = .fine := by
  obtain ⟨b, mem, o, built, failed, -⟩ :=
    Sample.exists_complaint (r := Sample.ran 1) (by decide +kernel)
  have calm : (Sample.ran 1).compile.bag.map Bag.hasErrors = some false := by decide +kernel
  obtain ⟨bag, made, none⟩ := Option.map_eq_some_iff.mp calm
  refine ⟨Sample.grumbling_honest, Option.isNone_iff_eq_none.mp (by decide +kernel),
    ⟨b, mem, o, built, failed⟩, bag, made, none, ?_⟩
  rw [Command.endingOf, none]
  rfl

end Tenure.Build
