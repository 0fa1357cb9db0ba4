import Tenure.Proofs.Transparency

/- Which units fail. A unit fails exactly when its document cannot be read or decoded or its analysis
   finds something, whichever files are registered, however many findings are kept and whatever earlier
   compilations have left in the cache. -/
namespace Tenure

namespace Document

variable {d : Document} {m : Module}

theorem accept_elsewhere {files : FileSet} {disk : String → Option Bytes}
    (accepted : (d.accept files disk).2 = .ok m) (others : FileSet) :
    ∃ ρ : Nat → Nat, Function.Injective ρ ∧
      ∃ file, (d.accept others disk).2 = .ok (m.respan (Range.rename ρ) file) := by
  unfold accept at accepted ⊢
  split at accepted
  · cases accepted
  rename_i named
  rw [if_neg named]
  cases source : d.source with
  | some text =>
    simp only [source] at accepted ⊢
    obtain ⟨ρ, injective, -, again⟩ :=
      acceptIn_elsewhere accepted (others.addVirtual d.file (Bytes.ofString text)).2
    exact ⟨ρ, injective, _, again⟩
  | none =>
    simp only [source] at accepted ⊢
    obtain ⟨ρ, injective, -, again⟩ := acceptIn_elsewhere accepted (others.register disk d.file).2
    exact ⟨ρ, injective, _, again⟩

end Document

namespace Build

namespace Call

def module? (q : Call) : Option Module :=
  match q.read q.url with
  | .error _ => none
  | .ok data => (Document.load {} q.settings.disk (Bytes.toText data)).2.toOption

def isClean (q : Call) : Bool := q.module?.any fun m => (Analysis.of m).findings.isEmpty

def completes (q : Call) : Bool :=
  q.module?.all fun m => ((Analysis.of m).generate (m.name ++ ".rs")).isSome

variable {q : Call}

variable {d : Document} {m : Module}

theorem module?_eq (q : Call) :
    q.module? = q.document?.bind fun p => (p.2.accept {} q.settings.disk).2.toOption := by
  unfold module? document? Document.load
  cases q.read q.url with
  | error why => rfl
  | ok data =>
    dsimp only
    cases Json.parse? (Bytes.toText data) with
    | none => rfl
    | some j =>
      dsimp only
      cases Document.read j {} with
      | error e => rfl
      | ok d =>
        dsimp only [Option.bind_some]
        cases (d.accept {} q.settings.disk).2 <;> rfl

theorem loads_of_module? (written : q.module? = some m) :
    ∃ data d files m, q.Loads data d files m := by
  rw [module?_eq, Option.bind_eq_some_iff] at written
  obtain ⟨⟨data, d⟩, document, written⟩ := written
  cases accepted : (d.accept {} q.settings.disk).2 with
  | error e =>
    rw [accepted] at written
    cases written
  | ok m' =>
    obtain ⟨ρ, -, file, again⟩ := Document.accept_elsewhere accepted q.files
    exact ⟨data, d, _, _, document, Prod.ext rfl again⟩

theorem Loads.module? {data : Bytes} {files : FileSet} (loads : q.Loads data d files m) :
    ∃ ρ : Nat → Nat, Function.Injective ρ ∧
      ∃ file, q.module? = some (m.respan (Range.rename ρ) file) := by
  have accepted : (d.accept q.files q.settings.disk).2 = .ok m := by rw [loads.accepted]
  obtain ⟨ρ, injective, file, again⟩ := Document.accept_elsewhere accepted {}
  refine ⟨ρ, injective, file, ?_⟩
  rw [module?_eq, loads.document, Option.bind_some, again]
  rfl

section Loads

variable {data : Bytes} {d : Document} {files : FileSet} {m : Module} (loads : q.Loads data d files m)

include loads

theorem Loads.isClean_iff : q.isClean = true ↔ (Analysis.of m).findings = [] := by
  obtain ⟨ρ, -, file, written⟩ := loads.module?
  have count := findings_moved (τ := Range.rename ρ) m file
  rw [isClean, written, Option.any_some, List.isEmpty_iff, ← List.length_eq_zero_iff, count,
    List.length_eq_zero_iff]

theorem Loads.generates (complete : q.completes = true) :
    ((Analysis.of m).generate d.unitName).isSome = true := by
  obtain ⟨ρ, injective, file, written⟩ := loads.module?
  have name : (m.respan (Range.rename ρ) file).name ++ ".rs" = d.unitName := loads.name
  rwa [completes, written, Option.all_some, name, generate_rename injective, Option.isSome_map]
    at complete

end Loads

structure Vouches (q : Call) (key : String) : Prop where
  clean : q.isClean = true
  made : ∃ data d files m, q.Loads data d files m ∧ key = q.key data d

end Call

def Vouched (texts : List Bytes) (c : Cache) : Prop := Stock texts (fun q key _ => q.Vouches key) c

section Cached

variable {key : String}

theorem fromCache_cache (s : Shop) (key : String) : (fromCache s key).1.cache = s.cache := by
  unfold fromCache
  split
  · rfl
  · split
    · split <;> rfl
    · rfl

theorem fromCache_some {s t : Shop} {u : Generated} (found : fromCache s key = (t, some u)) :
    ∃ c v, s.cache = some c ∧ c.get key = .ok (some v) := by
  unfold fromCache at found
  split at found
  · cases found
  · rename_i c held
    split at found
    · rename_i v got
      exact ⟨c, v, held, got⟩
    · cases found

end Cached

namespace Call

variable {texts : List Bytes} {q : Call}

theorem Vouches.isClean {p : Call} (free : Hash.CollisionFree texts) (hp : p.Digests texts)
    (hq : q.Digests texts) {data : Bytes} {d : Document} {files : FileSet} {m : Module}
    (loads : q.Loads data d files m) (vouches : p.Vouches (q.key data d)) : q.isClean = true := by
  obtain ⟨data', d', files', m', loads', same⟩ := vouches.made
  obtain ⟨rfl, rfl⟩ := loads.document_eq loads' free hp hq same
  rw [loads.isClean_iff]
  exact loads.clean_eq loads' rfl (loads'.isClean_iff.mp vouches.clean)

theorem run_without_module (none : q.module? = none) (cache : Option Cache) :
    (q.run cache).result.unit = Option.none ∧ (q.run cache).result.bag.items ≠ [] ∧
      (q.run cache).shop.cache = cache := by
  rcases q.loads_or_fails with ⟨data, d, files, m, loads⟩ | ⟨⟨-, unit, found⟩, same⟩
  · obtain ⟨ρ, -, file, written⟩ := loads.module?
    rw [none] at written
    cases written
  · rw [same]
    exact ⟨unit, found, rfl⟩

structure Decides (url : String) (clean : Bool) (c : Compiled) : Prop where
  url : c.url = url
  failed : c.failed = !clean
  found : c.failed = true → c.bag.items ≠ []

theorem marks_of_decided {clean : String → Bool} {urls : List String} {cs : List Compiled}
    (decided : List.Forall₂ (fun url c => Decides url (clean url) c) urls cs) :
    cs.map (fun c => (c.url, c.failed)) = urls.map fun url => (url, !clean url) := by
  induction decided with
  | nil => rfl
  | cons first _ ih => rw [List.map_cons, List.map_cons, ih, first.url, first.failed]

theorem found_of_decided {clean : String → Bool} {urls : List String} {cs : List Compiled}
    (decided : List.Forall₂ (fun url c => Decides url (clean url) c) urls cs) {c : Compiled}
    (mem : c ∈ cs) (failed : c.failed = true) : c.bag.items ≠ [] := by
  induction decided with
  | nil => cases mem
  | cons first _ ih =>
    rcases List.mem_cons.mp mem with rfl | later
    · exact first.found failed
    · exact ih later

theorem run_url (q : Call) (cache : Option Cache) : (q.run cache).result.url = q.url := by
  unfold run compileUnit
  split
  · rfl
  · split
    · rfl
    · dsimp only
      split <;> rfl

theorem hasLocalErrors_iff {limit : Int} {m : Module} :
    (Bag.addAll { limit } (Analysis.of m).findings).sort.hasLocalErrors = true ↔
      (Analysis.of m).findings ≠ [] := by
  have items : ∀ d, d ∈ (Bag.addAll { limit } (Analysis.of m).findings).sort.items ↔
      d ∈ fitting limit (Analysis.of m).findings := by
    intro d
    rw [Bag.mem_sort, Bag.addAll_items (Bag.sized_empty limit)]
    rfl
  rw [Bag.hasLocalErrors, List.any_eq_true]
  constructor
  · rintro ⟨d, mem, -⟩ none
    have found := mem_of_mem_fitting ((items d).mp mem)
    rw [none] at found
    cases found
  · intro some
    obtain ⟨d, kept⟩ := List.exists_mem_of_ne_nil _ (fitting_ne_nil limit some)
    obtain ⟨error, isLocal⟩ := analysis_findings (mem_of_mem_fitting kept)
    refine ⟨d, (items d).mpr kept, ?_⟩
    rw [Diagnostic.isError, error, isLocal]
    rfl

section Cached

variable {cache : Option Cache} (vouched : ∀ c ∈ cache, Vouched texts c) (digests : q.Digests texts)

include vouched digests

theorem run_vouched : ∀ c ∈ (q.run cache).shop.cache, Vouched texts c := by
  cases written : q.module? with
  | none =>
    rw [(run_without_module written cache).2.2]
    exact vouched
  | some m =>
    obtain ⟨data, d, files, m, loads⟩ := loads_of_module? written
    have held := fromCache_cache { files, cache } (q.key data d)
    cases found : fromCache { files, cache } (q.key data d) with
    | mk s outcome =>
      rw [found] at held
      cases outcome with
      | some u =>
        rw [(loads.hit found).1, held]
        exact vouched
      | none =>
        rw [loads.miss found]
        rcases compileModule_shop q.settings s q.url m (q.key data d) d.unitName with
          same | ⟨u, c, n, c', -, clean, old, put, same⟩
        · rw [same, held]
          exact vouched
        · rw [same]
          intro e mem
          cases mem
          have own : Vouched texts c := vouched c (held.symm.trans old)
          exact own.put put digests ⟨loads.isClean_iff.mpr clean, data, d, files, m, loads, rfl⟩

theorem run_decides (free : Hash.CollisionFree texts) (complete : q.completes = true) :
    Decides q.url q.isClean (q.run cache).result := by
  have url := run_url q cache
  cases written : q.module? with
  | none =>
    obtain ⟨unit, found, -⟩ := run_without_module written cache
    have foul : q.isClean = false := by rw [isClean, written, Option.any_none]
    refine ⟨url, ?_, fun _ => found⟩
    rw [Compiled.failed, unit, foul]
    rfl
  | some m =>
    obtain ⟨data, d, files, m, loads⟩ := loads_of_module? written
    obtain ⟨g, made⟩ := Option.isSome_iff_exists.mp (loads.generates complete)
    cases found : fromCache { files, cache } (q.key data d) with
    | mk s outcome =>
      cases outcome with
      | some u =>
        have result := (loads.hit found).2
        obtain ⟨c, v, held, got⟩ := fromCache_some found
        obtain ⟨p, hp, vouches⟩ := vouched c held _ v (get_slot got)
        have clean := vouches.isClean free hp digests loads
        have kept : (q.run cache).result.failed = false := by
          rw [result]
          rfl
        refine ⟨url, by rw [kept, clean]; rfl, ?_⟩
        rw [kept]
        exact fun failed => absurd failed (by decide)
      | none =>
        have result : (q.run cache).result = _ := congrArg UnitRun.result (loads.miss found)
        rw [compileModule_result, made] at result
        have failed : (q.run cache).result.failed =
            (Bag.addAll { limit := q.settings.limit } (Analysis.of m).findings).sort.hasLocalErrors := by
          rw [result]
          rfl
        refine ⟨url, ?_, ?_⟩
        · rw [failed, Bool.eq_iff_iff, hasLocalErrors_iff, Bool.not_eq_true', Bool.eq_false_iff, ne_eq,
            ne_eq, loads.isClean_iff]
        · rw [failed, result]
          intro some none
          rw [Bag.hasLocalErrors, none] at some
          cases some

end Cached

end Call

structure Visit where
  request : Request
  storage : Storage
  files : FileSet := {}

namespace Visit

def urls (v : Visit) : List String := (discover v.storage v.request.inputs).toOption.getD []

def call (v : Visit) (files : FileSet) (url : String) : Call :=
  { settings := v.request.settings, read := readFrom v.storage, files, url }

def isClean (v : Visit) (url : String) : Bool := (v.call {} url).isClean

def completes (v : Visit) (url : String) : Bool := (v.call {} url).completes

def texts (v : Visit) : List Bytes := v.urls.filterMap fun url => (v.call {} url).keyText?

def compile (v : Visit) (cache : Option Cache) : CompileRun :=
  Build.compile v.request v.storage { files := v.files, cache }

def cacheAfter (cache : Option Cache) (visits : List Visit) : Option Cache :=
  visits.foldl (fun cache v => (v.compile cache).shop.cache) cache

variable {v : Visit} {texts : List Bytes} {s : Shop}

theorem urls_of_discover {urls : List String} (found : discover v.storage v.request.inputs = .ok urls) :
    v.urls = urls := by
  rw [Visit.urls, found]
  rfl

theorem keyText?_call (files : FileSet) (url : String) :
    (v.call files url).keyText? = (v.call {} url).keyText? := by
  simp only [Call.keyText?, Call.document?, call]

theorem module?_call (files : FileSet) (url : String) :
    (v.call files url).module? = (v.call {} url).module? := by
  simp only [Call.module?, call]

theorem isClean_call (files : FileSet) (url : String) : (v.call files url).isClean = v.isClean url := by
  rw [isClean, Call.isClean, Call.isClean, module?_call]

theorem completes_call (files : FileSet) (url : String) :
    (v.call files url).completes = v.completes url := by
  rw [completes, Call.completes, Call.completes, module?_call]

theorem units_cons (s : Shop) (url : String) (urls : List String) :
    compileUnits v.request.settings (readFrom v.storage) s (url :: urls) =
      let r := (v.call s.files url).run s.cache
      let later := compileUnits v.request.settings (readFrom v.storage) r.shop urls
      (later.1, r :: later.2) := by
  rw [compileUnits]
  simp only [Call.run, call]

theorem digests_of_mem (known : v.texts ⊆ texts) {url : String} (mem : url ∈ v.urls) (files : FileSet) :
    (v.call files url).Digests texts := by
  intro t digested
  rw [keyText?_call] at digested
  exact known (List.mem_filterMap.mpr ⟨url, mem, digested⟩)

section Units

variable (vouched : ∀ c ∈ s.cache, Vouched texts c) {urls : List String}
  (digests : ∀ url ∈ urls, ∀ files, (v.call files url).Digests texts)

include vouched digests

theorem units_vouched : ∀ c ∈ (compileUnits v.request.settings (readFrom v.storage) s urls).1.cache,
    Vouched texts c := by
  induction urls generalizing s with
  | nil => exact vouched
  | cons url urls ih =>
    rw [List.forall_mem_cons] at digests
    rw [units_cons]
    exact ih ((v.call s.files url).run_vouched vouched (digests.1 s.files)) digests.2

theorem units_decided (free : Hash.CollisionFree texts) (complete : ∀ url ∈ urls, v.completes url = true) :
    List.Forall₂ (fun url r => Call.Decides url (v.isClean url) r.result) urls
      (compileUnits v.request.settings (readFrom v.storage) s urls).2 := by
  induction urls generalizing s with
  | nil => exact .nil
  | cons url urls ih =>
    rw [List.forall_mem_cons] at digests complete
    have first := (v.call s.files url).run_decides vouched (digests.1 s.files) free
      ((completes_call s.files url).trans complete.1)
    have later := (v.call s.files url).run_vouched vouched (digests.1 s.files)
    rw [isClean_call] at first
    rw [units_cons]
    exact .cons first (ih later digests.2 complete.2)

end Units

variable {cache : Option Cache}

theorem compile_vouched (vouched : ∀ c ∈ cache, Vouched texts c)
    (known : v.texts ⊆ texts) : ∀ c ∈ (v.compile cache).shop.cache, Vouched texts c := by
  unfold compile Build.compile
  dsimp only
  split
  · exact vouched
  split
  · exact vouched
  rename_i urls found
  split
  · exact vouched
  rename_i done
  have all := urls_of_discover found
  rw [(compileAll_eq_some done).1]
  exact units_vouched (s := { files := v.files, cache }) vouched fun url mem files =>
    digests_of_mem known (all ▸ mem) files

theorem cacheAfter_vouched (vouched : ∀ c ∈ cache, Vouched texts c)
    {visits : List Visit} (known : ∀ v ∈ visits, v.texts ⊆ texts) :
    ∀ c ∈ cacheAfter cache visits, Vouched texts c := by
  induction visits generalizing cache with
  | nil => exact vouched
  | cons v visits ih =>
    rw [List.forall_mem_cons] at known
    exact ih (compile_vouched vouched known.1) known.2

theorem compile_units {urls : List String} (found : discover v.storage v.request.inputs = .ok urls)
    (going : v.request.canceled = false) (cache : Option Cache) :
    (v.compile cache).fault = none ∧ (v.compile cache).compiled =
      (compileUnits v.request.settings (readFrom v.storage) { files := v.files, cache } urls).2.map
        (·.result) ∧
      (v.compile cache).bag = some (mergedBag v.request.settings.limit (v.compile cache).compiled) := by
  have given : v.request.inputs.isEmpty = false := by
    cases inputs : v.request.inputs with
    | nil =>
      rw [inputs] at found
      cases found
    | cons root roots => rfl
  have all (cs : List Compiled) : (cs.map some).filterMap id = cs := by simp
  unfold compile Build.compile
  simp only [given, found, compileAll, going, Bool.false_eq_true, if_false, Bool.false_and,
    CompileRun.compiled, all, and_self]

theorem compiled_decided {urls : List String}
    (found : discover v.storage v.request.inputs = .ok urls)
    (going : v.request.canceled = false) (free : Hash.CollisionFree texts) (known : v.texts ⊆ texts)
    (vouched : ∀ c ∈ cache, Vouched texts c) (complete : ∀ url ∈ urls, v.completes url = true) :
    List.Forall₂ (fun url c => Call.Decides url (v.isClean url) c) urls (v.compile cache).compiled := by
  have all := urls_of_discover found
  rw [(compile_units found going cache).2.1, List.forall₂_map_right_iff]
  exact units_decided (s := { files := v.files, cache }) vouched
    (fun url mem files => digests_of_mem known (all ▸ mem) files) free complete

end Visit

end Build

end Tenure
