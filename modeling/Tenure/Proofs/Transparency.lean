import Tenure.Build.Compile
import Tenure.Proofs.Association
import Tenure.Proofs.Encoding
import Tenure.Proofs.Findings
import Tenure.Proofs.RestoredMaps
import Tenure.Proofs.UnitKeys

/- Compiling with a cache. A unit is kept when nothing was found about it, under a key that tells its
   document. Whatever is taken from the cache later is what compiling would have come to. -/
namespace Tenure

theorem Bytes.toText_ofString (s : String) : Bytes.toText (Bytes.ofString s) = s := by
  rw [Bytes.toText, Bytes.toChars, Bytes.ofString_eq, Bytes.chars_ofChars, List.map_map]
  exact (congrArg String.ofList (List.map_id s.toList)).trans s.ofList_toList

namespace Document

def unitName (d : Document) : String := (if d.module.isEmpty then "main" else d.module) ++ ".rs"

theorem acceptIn_names {file : Nat} {d : Document} {m : Module} (accepted : d.acceptIn file = .ok m) :
    m.name ++ ".rs" = d.unitName ∧ m.path = d.file ∧ m.file = file := by
  obtain ⟨_, _, _, _, -, -, rfl⟩ := acceptIn_ok accepted
  exact ⟨rfl, rfl, rfl⟩

theorem register_latest (fs : FileSet) (disk : String → Option Bytes) (path : String) :
    (fs.register disk path).1.latest path = some (fs.register disk path).2 := by
  unfold FileSet.register
  split
  · assumption
  · split
    · rw [FileSet.addLoaded, FileSet.latest_add, if_pos rfl]
      rfl
    · rw [FileSet.addVirtual, FileSet.latest_add, if_pos rfl]
      rfl

theorem accept_latest {fs files : FileSet} {disk : String → Option Bytes} {d : Document} {m : Module}
    (accepted : d.accept fs disk = (files, .ok m)) :
    d.acceptIn m.file = .ok m ∧ files.latest d.file = some m.file := by
  unfold accept at accepted
  split at accepted
  · cases accepted
  cases source : d.source with
  | some text =>
    simp only [source] at accepted
    obtain ⟨rfl, inside⟩ := Prod.mk.inj accepted
    obtain ⟨-, -, same⟩ := acceptIn_names inside
    rw [same, FileSet.addVirtual, FileSet.latest_add, if_pos rfl]
    exact ⟨inside, rfl⟩
  | none =>
    simp only [source] at accepted
    obtain ⟨rfl, inside⟩ := Prod.mk.inj accepted
    obtain ⟨-, -, same⟩ := acceptIn_names inside
    rw [same]
    exact ⟨inside, register_latest fs disk d.file⟩

theorem acceptIn_elsewhere {d : Document} {m : Module} {file : Nat} (accepted : d.acceptIn file = .ok m)
    (other : Nat) : ∃ ρ : Nat → Nat, Function.Injective ρ ∧ ρ file = other ∧
      d.acceptIn other = .ok (m.respan (Range.rename ρ) other) := by
  have number : Equiv.swap file other file = other := Equiv.swap_apply_left file other
  have again := acceptIn_rename (Equiv.swap file other) file d
  rw [accepted, number] at again
  exact ⟨Equiv.swap file other, (Equiv.swap file other).injective, number, again⟩

end Document

namespace Build

structure Call where
  settings : Settings := {}
  read : String → Except String Bytes
  files : FileSet := {}
  url : String

def Call.run (q : Call) (cache : Option Cache) : UnitRun :=
  compileUnit q.settings q.read { files := q.files, cache } q.url

def session (cache : Option Cache) : List Call → List UnitRun
  | [] => []
  | q :: qs => q.run cache :: session (q.run cache).shop.cache qs

namespace Call

def document? (q : Call) : Option (Bytes × Document) :=
  match q.read q.url with
  | .error _ => none
  | .ok data => match Json.parse? (Bytes.toText data) with
    | none => none
    | some j => match Document.read j {} with
      | .error _ => none
      | .ok d => some (data, d)

def key (q : Call) (data : Bytes) (d : Document) : String :=
  Cache.unitKey q.settings.release data d.unitName

def keyText? (q : Call) : Option Bytes :=
  q.document?.map fun (data, d) => Cache.keyText q.settings.release data d.unitName

def Digests (q : Call) (texts : List Bytes) : Prop := ∀ t, q.keyText? = some t → t ∈ texts

structure Loads (q : Call) (data : Bytes) (d : Document) (files : FileSet) (m : Module) : Prop where
  document : q.document? = some (data, d)
  accepted : d.accept q.files q.settings.disk = (files, .ok m)

theorem document?_of {q : Call} {data : Bytes} {j : Json} {d : Document} (read : q.read q.url = .ok data)
    (parsed : Json.parse? (Bytes.toText data) = some j) (fields : Document.read j {} = .ok d) :
    q.document? = some (data, d) := by
  simp only [document?, read, parsed, fields]

theorem document?_some {q : Call} {data : Bytes} {d : Document} (known : q.document? = some (data, d)) :
    q.read q.url = .ok data ∧
      ∃ j, Json.parse? (Bytes.toText data) = some j ∧ Document.read j {} = .ok d := by
  unfold document? at known
  split at known
  · cases known
  split at known
  · cases known
  split at known
  · cases known
  cases known
  exact ⟨by assumption, _, by assumption, by assumption⟩

theorem add_ne_nil (limit : Int) (d : Diagnostic) : (Bag.add { limit } d).items ≠ [] := by
  have room : ({ limit } : Bag).isFull = false := by
    simp only [Bag.isFull, List.length_nil]
    grind
  rw [Bag.add, if_neg (by simp [room])]
  simp

theorem loads_or_fails (q : Call) : (∃ data d files m, q.Loads data d files m) ∨
    ((q.run none).result.cached = false ∧ (q.run none).result.unit = none ∧
        (q.run none).result.bag.items ≠ []) ∧
      ∀ cache, q.run cache = { q.run none with shop := { (q.run none).shop with cache } } := by
  unfold run compileUnit
  cases read : q.read q.url with
  | error why => exact .inr ⟨⟨rfl, rfl, add_ne_nil _ _⟩, fun _ => rfl⟩
  | ok data =>
    dsimp only
    unfold Document.load
    cases parsed : Json.parse? (Bytes.toText data) with
    | none => exact .inr ⟨⟨rfl, rfl, add_ne_nil _ _⟩, fun _ => rfl⟩
    | some j =>
      dsimp only
      cases fields : Document.read j {} with
      | error e => exact .inr ⟨⟨rfl, rfl, add_ne_nil _ _⟩, fun _ => rfl⟩
      | ok d =>
        dsimp only
        cases accepted : d.accept q.files q.settings.disk with
        | mk files m =>
          cases m with
          | error e => exact .inr ⟨⟨rfl, rfl, add_ne_nil _ _⟩, fun _ => rfl⟩
          | ok m =>
            exact .inl ⟨data, d, files, m, document?_of read parsed fields, accepted⟩

section Loads

variable {q : Call} {data : Bytes} {d : Document} {files : FileSet} {m : Module}
  (loads : q.Loads data d files m)

include loads

theorem Loads.inside : d.acceptIn m.file = .ok m := (Document.accept_latest loads.accepted).1

theorem Loads.latest : files.latest d.file = some m.file := (Document.accept_latest loads.accepted).2

theorem Loads.name : m.name ++ ".rs" = d.unitName := (Document.acceptIn_names loads.inside).1

theorem Loads.load : Document.load q.files q.settings.disk (Bytes.toText data) = (files, .ok m) := by
  obtain ⟨-, j, parsed, fields⟩ := document?_some loads.document
  unfold Document.load
  simp only [parsed, fields, loads.accepted]
  rfl

theorem Loads.hit {cache : Option Cache} {s : Shop} {u : Generated}
    (found : fromCache { files, cache } (q.key data d) = (s, some u)) :
    (q.run cache).shop = s ∧
      (q.run cache).result = { url := q.url
                               module := some m
                               unit := some u
                               bag := { limit := q.settings.limit }
                               cached := true } := by
  obtain ⟨read, -⟩ := document?_some loads.document
  rw [key, ← loads.name] at found
  unfold run compileUnit
  simp only [read, loads.load, found, and_self]

theorem Loads.miss {cache : Option Cache} {s : Shop}
    (found : fromCache { files, cache } (q.key data d) = (s, none)) :
    q.run cache = compileModule q.settings s q.url m (q.key data d) d.unitName := by
  obtain ⟨read, -⟩ := document?_some loads.document
  rw [key, ← loads.name] at found ⊢
  unfold run compileUnit
  simp only [read, loads.load, found]

theorem Loads.plain :
    q.run none = compileModule q.settings { files } q.url m (q.key data d) d.unitName :=
  loads.miss rfl

theorem Loads.keyText? : q.keyText? = some (Cache.keyText q.settings.release data d.unitName) := by
  rw [Call.keyText?, loads.document]
  rfl

variable {p : Call} {data' : Bytes} {d' : Document} {files' : FileSet} {m' : Module}
  (loads' : p.Loads data' d' files' m')

include loads'

theorem Loads.document_eq {texts : List Bytes} (free : Hash.CollisionFree texts)
    (hp : p.Digests texts) (hq : q.Digests texts) (same : q.key data d = p.key data' d') :
    data = data' ∧ d = d' := by
  obtain ⟨-, j, parsed, fields⟩ := document?_some loads.document
  obtain ⟨-, j', parsed', fields'⟩ := document?_some loads'.document
  obtain rfl : data = data' :=
    Cache.unitKey_document free (hq _ loads.keyText?) (hp _ loads'.keyText?) parsed parsed' same
  obtain rfl : j = j' := Option.some.inj (parsed.symm.trans parsed')
  exact ⟨rfl, Except.ok.inj (fields.symm.trans fields')⟩

theorem Loads.moved (same : d = d') : ∃ ρ : Nat → Nat, Function.Injective ρ ∧ ρ m'.file = m.file ∧
    m = m'.respan (Range.rename ρ) m.file := by
  subst same
  obtain ⟨ρ, injective, number, again⟩ := Document.acceptIn_elsewhere loads'.inside m.file
  exact ⟨ρ, injective, number, Except.ok.inj (loads.inside.symm.trans again)⟩

theorem Loads.clean_eq (same : d = d') (clean : (Analysis.of m').findings = []) :
    (Analysis.of m).findings = [] := by
  obtain ⟨ρ, -, -, moved⟩ := loads.moved loads' same
  have count := findings_moved (τ := Range.rename ρ) m' m.file
  rw [← moved, clean] at count
  exact List.eq_nil_of_length_eq_zero count

end Loads

end Call

section Module

variable (o : Settings) (s : Shop) (url : String) (m : Module) (key generated : String)

theorem compileModule_result :
    (compileModule o s url m key generated).result =
      { url
        module := some m
        analysis := some (Analysis.of m)
        unit := (Analysis.of m).generate generated
        bag := (Bag.addAll { limit := o.limit } (Analysis.of m).findings).sort } := by
  rfl

theorem addAll_nothing (limit : Int) : (Bag.addAll { limit } []).sort = { limit } := by
  simp [Bag.sort, Bag.addAll]

theorem found_nothing {limit : Int} {ds : List Diagnostic}
    (empty : (Bag.addAll { limit } ds).sort.items.isEmpty = true) : ds = [] := by
  by_contra some
  have sorted := List.mergeSort_perm (Bag.addAll { limit } ds).items Diagnostic.le
  rw [show List.mergeSort _ _ = [] from List.isEmpty_iff.mp empty,
    Bag.addAll_items (Bag.sized_empty limit)] at sorted
  exact fitting_ne_nil limit some sorted.symm.eq_nil

theorem compileModule_shop :
    (compileModule o s url m key generated).shop = s ∨
      ∃ u c n c', (Analysis.of m).generate generated = some u ∧ (Analysis.of m).findings = [] ∧
        s.cache = some c ∧
        c.put key { module := u.module
                    generated := u.file
                    text := u.text
                    map := (u.map.getD default).store s.files
                    functions := n } = .ok c' ∧
        (compileModule o s url m key generated).shop = { s with cache := some c' } := by
  unfold compileModule
  dsimp only
  cases made : (Analysis.of m).generate generated with
  | none => exact .inl rfl
  | some u =>
    dsimp only
    split
    · rename_i empty
      unfold toCache
      cases cached : s.cache with
      | none => exact .inl rfl
      | some c =>
        dsimp only
        split
        · rename_i c' put
          exact .inr ⟨u, c, _, c', rfl, found_nothing empty, rfl, put, rfl⟩
        · exact .inl rfl
    · exact .inl rfl

end Module

/-! ### What the cache holds -/

inductive Call.Kept (q : Call) : String → CachedUnit → Prop where
  | mk {data : Bytes} {d : Document} {files : FileSet} {m : Module} {g : Generated} {map : SourceMap}
      (loads : q.Loads data d files m) (clean : (Analysis.of m).findings = [])
      (made : (Analysis.of m).generate d.unitName = some g) (mapped : g.map = some map) (n : Int) :
      Kept q (q.key data d)
        { module := g.module
          generated := g.file
          text := g.text
          map := map.store files
          functions := n }

/-- All that the cache holds was put there, in some way, by calls that digest one of the texts. -/
def Stock (texts : List Bytes) (way : Call → String → CachedUnit → Prop) (c : Cache) : Prop :=
  ∀ key u, c.slots.lookup key = some (.unit u) → ∃ q : Call, q.Digests texts ∧ way q key u

variable {texts : List Bytes} {c : Cache} {u : CachedUnit} {q : Call} {d : Document} {m : Module}

theorem lookup_setSlot (k key : String) (slot : Cache.Slot) (slots : List (String × Cache.Slot)) :
    (Cache.setSlot key slot slots).lookup k = if k = key then some slot else slots.lookup k :=
  lookup_set (Cache.setSlot key slot) ⟨rfl, fun _ _ => rfl⟩ slots k

theorem put_slots {c' : Cache} {key : String} (put : c.put key u = .ok c') :
    c'.slots = Cache.setSlot key (.unit { u with schema := Cache.currentSchema }) c.slots := by
  unfold Cache.put at put
  split at put
  · cases put
  split at put
  · cases put
  · cases put
    rfl

theorem get_slot {key : String} (found : c.get key = .ok (some u)) :
    c.slots.lookup key = some (.unit u) := by
  unfold Cache.get at found
  split at found
  · cases found
  split at found
  · cases found
  · rename_i v slot
    split at found
    · cases found
      exact slot
    · cases found
  · cases found
  · cases found

theorem Stock.put {way : Call → String → CachedUnit → Prop} {c' : Cache} {key : String}
    (stock : Stock texts way c) (put : c.put key u = .ok c') (digests : q.Digests texts)
    (kept : way q key { u with schema := Cache.currentSchema }) : Stock texts way c' := by
  intro k v found
  rw [put_slots put, lookup_setSlot] at found
  split at found
  · rename_i same
    cases found
    exact ⟨q, digests, same ▸ kept⟩
  · exact stock k v found

theorem Call.Kept.restored {p q : Call} {texts : List Bytes} (free : Hash.CollisionFree texts)
    (hp : p.Digests texts) (hq : q.Digests texts)
    {data : Bytes} {d : Document} {files : FileSet} {m : Module} (loads : q.Loads data d files m)
    (located : m.isLocated = true) {u : CachedUnit} (kept : p.Kept (q.key data d) u) :
    (SourceMap.load files u.map).1 = files ∧ (Analysis.of m).findings = [] ∧
      ∀ later again, SourceMap.load files u.map = (later, .ok again) →
        (Analysis.of m).generate d.unitName =
          some { module := u.module, file := u.generated, text := u.text, map := some again } := by
  generalize same : q.key data d = key at kept
  obtain ⟨loads', clean, made, mapped, n⟩ := kept
  rename_i data' d' files' m' g map
  obtain ⟨rfl, rfl⟩ := loads.document_eq loads' free hp hq same
  obtain ⟨ρ, injective, number, moved⟩ := loads.moved loads' rfl
  have placed : ∀ s ∈ map.segments, s.Placed m'.file := by
    refine generated_placed loads'.inside ?_ made mapped
    rwa [moved, isLocated_rename] at located
  have stands : SourceMap.pathOf files' m'.file = some (FileSet.normalPath d.file) :=
    FileSet.latest_path loads'.latest
  have newest : files.latest (FileSet.normalPath d.file) = some m.file := by
    rw [FileSet.latest, FileSet.normalPath_normalPath]
    exact loads.latest
  refine ⟨SourceMap.load_files placed stands newest, loads.clean_eq loads' rfl clean, ?_⟩
  intro later again loaded
  have restored := SourceMap.load_placed placed stands newest (generated_ordered made mapped) loaded
  have whole := generate_rename injective m' m.file d.unitName
  rw [← moved, made] at whole
  rw [whole, restored, Option.map_some, Generated.rename, mapped, Option.map_some,
    SourceMap.rename_placed (σ := fun _ => m.file) placed number]

/-- A call answers as it would without a cache. An answer from the cache has no analysis, is about a
unit without findings, and its map lies in the file that the call registered. -/
structure Call.Answers (q : Call) (r : UnitRun) : Prop where
  files : r.shop.files = (q.run none).shop.files
  miss : r.result.cached = false → r.result = (q.run none).result
  hit : r.result.cached = true →
    r.result = { (q.run none).result with analysis := none, cached := true } ∧
      (q.run none).result.bag.items = [] ∧
      ∀ m u map, r.result.module = some m → r.result.unit = some u → u.map = some map →
        r.shop.files.latest m.path = some m.file ∧ ∀ s ∈ map.segments, s.Placed m.file

def Call.IsLocated (q : Call) : Prop :=
  ∀ m, (q.run none).result.module = some m → m.isLocated = true

theorem compileModule_files (o : Settings) (s : Shop) (url : String) (m : Module)
    (key generated : String) : (compileModule o s url m key generated).shop.files = s.files := by
  rcases compileModule_shop o s url m key generated with same | ⟨u, c, n, c', -, -, -, -, same⟩
  · rw [same]
  · rw [same]

theorem Call.Loads.isLocated {data : Bytes} {files : FileSet}
    (loads : q.Loads data d files m) (located : q.IsLocated) : m.isLocated = true := by
  apply located m
  rw [loads.plain]
  rfl

theorem fromCache_answers {data : Bytes} {files : FileSet}
    (loads : q.Loads data d files m) (stock : Stock texts Call.Kept c) (free : Hash.CollisionFree texts)
    (digests : q.Digests texts) (located : q.IsLocated) :
    fromCache { files, cache := some c } (q.key data d) = ({ files, cache := some c }, none) ∨
      ∃ g, fromCache { files, cache := some c } (q.key data d) = ({ files, cache := some c }, some g) ∧
        (Analysis.of m).generate d.unitName = some g ∧ (Analysis.of m).findings = [] := by
  unfold fromCache
  dsimp only
  split
  · rename_i u found
    obtain ⟨p, known, kept⟩ := stock _ u (get_slot found)
    obtain ⟨same, clean, made⟩ := kept.restored free known digests loads (loads.isLocated located)
    split
    · rename_i later again loaded
      rw [loaded] at same
      subst same
      exact .inr ⟨_, rfl, made _ again loaded, clean⟩
    · rename_i later e loaded
      rw [loaded] at same
      subst same
      exact .inl rfl
  · exact .inl rfl

section Answers

variable {q : Call} {data : Bytes} {d : Document} {files : FileSet} {m : Module}
  (loads : q.Loads data d files m) {c : Cache}

include loads

theorem plain_result : (q.run none).result = { url := q.url
                                               module := some m
                                               analysis := some (Analysis.of m)
                                               unit := (Analysis.of m).generate d.unitName
                                               bag := (Bag.addAll { limit := q.settings.limit }
                                                 (Analysis.of m).findings).sort } := by
  rw [loads.plain, compileModule_result]

theorem hit_answers (located : q.IsLocated) {g : Generated}
    (found : fromCache { files, cache := some c } (q.key data d) = ({ files, cache := some c }, some g))
    (made : (Analysis.of m).generate d.unitName = some g) (clean : (Analysis.of m).findings = []) :
    q.Answers (q.run (some c)) := by
  obtain ⟨shop, result⟩ := loads.hit found
  refine ⟨?_, ?_, fun _ => ⟨?_, ?_, ?_⟩⟩
  · rw [shop, loads.plain, compileModule_files]
  · rw [result]
    nofun
  · rw [result, plain_result loads, made, clean, addAll_nothing]
  · rw [plain_result loads, clean, addAll_nothing]
  · intro m' u map module unit mapped
    rw [result] at module unit
    cases module
    cases unit
    obtain ⟨-, path, -⟩ := Document.acceptIn_names loads.inside
    rw [shop, path]
    exact ⟨loads.latest, generated_placed loads.inside (loads.isLocated located) made mapped⟩

theorem miss_answers
    (found : fromCache { files, cache := some c } (q.key data d) = ({ files, cache := some c }, none)) :
    q.Answers (q.run (some c)) := by
  have run := loads.miss found
  refine ⟨?_, ?_, ?_⟩
  · rw [run, loads.plain, compileModule_files, compileModule_files]
  · rw [run, compileModule_result, plain_result loads]
    exact fun _ => rfl
  · rw [run, compileModule_result]
    nofun

theorem miss_stock (stock : Stock texts Call.Kept c) (digests : q.Digests texts)
    (found : fromCache { files, cache := some c } (q.key data d) = ({ files, cache := some c }, none)) :
    ∃ c', (q.run (some c)).shop.cache = some c' ∧ Stock texts Call.Kept c' := by
  rw [loads.miss found]
  rcases compileModule_shop q.settings { files, cache := some c } q.url m (q.key data d) d.unitName with
    same | ⟨u, _, n, c', made, clean, held, put, same⟩
  · rw [same]
    exact ⟨c, rfl, stock⟩
  · rw [same]
    cases held
    obtain ⟨-, -, mapped⟩ := generate_spec made
    refine ⟨c', rfl, stock.put put digests ?_⟩
    rw [mapped]
    exact .mk loads clean made mapped n

end Answers

theorem run_answers (stock : Stock texts Call.Kept c) (free : Hash.CollisionFree texts)
    (digests : q.Digests texts) (located : q.IsLocated) :
    q.Answers (q.run (some c)) ∧
      ∃ c', (q.run (some c)).shop.cache = some c' ∧ Stock texts Call.Kept c' := by
  rcases q.loads_or_fails with ⟨data, d, files, m, loads⟩ | ⟨⟨missed, -⟩, same⟩
  · rcases fromCache_answers loads stock free digests located with found | ⟨g, found, made, clean⟩
    · exact ⟨miss_answers loads found, miss_stock loads stock digests found⟩
    · refine ⟨hit_answers loads located found made clean, c, ?_, stock⟩
      rw [(loads.hit found).1]
  · rw [same (some c)]
    refine ⟨⟨rfl, fun _ => rfl, ?_⟩, c, rfl, stock⟩
    intro hit
    rw [missed] at hit
    cases hit

theorem session_answers (free : Hash.CollisionFree texts) (calls : List Call)
    (located : ∀ q ∈ calls, q.IsLocated) (digested : ∀ q ∈ calls, q.Digests texts)
    (stock : Stock texts Call.Kept c) : List.Forall₂ Call.Answers calls (session (some c) calls) := by
  induction calls generalizing c with
  | nil => exact .nil
  | cons q qs ih =>
    rw [List.forall_mem_cons] at located digested
    obtain ⟨answers, c', cache, stock⟩ := run_answers stock free digested.1 located.1
    refine .cons answers ?_
    rw [cache]
    exact ih located.2 digested.2 stock

/-! ### Units that are served -/

theorem put_get {c' : Cache} {key : String} (put : c.put key u = .ok c') :
    c'.get key = .ok (some { u with schema := Cache.currentSchema }) := by
  unfold Cache.put at put
  split at put
  · cases put
  rename_i reachable
  split at put
  · cases put
  cases put
  unfold Cache.get
  rw [if_neg reachable]
  dsimp only
  rw [lookup_setSlot, if_pos rfl]
  rfl

theorem compileModule_puts (o : Settings) (files : FileSet) (url : String)
    {key generated : String} {u : Generated} (clean : (Analysis.of m).findings = [])
    (made : (Analysis.of m).generate generated = some u) {map : SourceMap} (mapped : u.map = some map)
    (reachable : c.blocked = false) (fresh : c.slots.lookup key = none) :
    ∃ c' n, c'.get key = .ok (some { module := u.module
                                     generated := u.file
                                     text := u.text
                                     map := map.store files
                                     functions := n }) ∧
      (compileModule o { files, cache := some c } url m key generated).shop.cache = some c' := by
  have put (v : CachedUnit) : ∃ c', c.put key v = .ok c' := by
    unfold Cache.put
    rw [reachable, fresh]
    exact ⟨_, rfl⟩
  have empty : (Bag.addAll { limit := o.limit } (Analysis.of m).findings).sort.items.isEmpty = true := by
    rw [clean, addAll_nothing]
    rfl
  obtain ⟨c', stored⟩ := put
    { module := u.module
      generated := u.file
      text := u.text
      map := map.store files
      functions := (Analysis.of m).funcs.length }
  refine ⟨c', _, put_get stored, ?_⟩
  unfold compileModule toCache
  simp only [made, empty, if_true, mapped, Option.getD_some, stored]

theorem served_again {p : Call} {data : Bytes} {files files' : FileSet} {m' : Module}
    (first : p.Loads data d files m) (second : q.Loads data d files' m')
    (release : q.settings.release = p.settings.release) (clean : (Analysis.of m).findings = [])
    {g : Generated} {map : SourceMap} (made : (Analysis.of m).generate d.unitName = some g)
    (mapped : g.map = some map) (fits : ∀ s ∈ map.segments, s.Fits)
    (reachable : c.blocked = false) (fresh : c.slots.lookup (p.key data d) = none) :
    (p.run (some c)).result.cached = false ∧
      (q.run (p.run (some c)).shop.cache).result.cached = true := by
  have missed : fromCache { files, cache := some c } (p.key data d) = ({ files, cache := some c }, none) := by
    unfold fromCache Cache.get
    simp only [reachable, fresh, Bool.false_eq_true, if_false]
  have same : q.key data d = p.key data d := by rw [Call.key, Call.key, release]
  obtain ⟨c', n, found, cache⟩ :=
    compileModule_puts p.settings files p.url clean made mapped reachable fresh
  obtain ⟨later, -, -, loaded⟩ := SourceMap.load_store files files' (generated_ordered made mapped) fits
  have hit : fromCache { files := files', cache := some c' } (q.key data d) =
      ({ files := later, cache := some c' }, some { module := g.module
                                                    file := g.file
                                                    text := g.text
                                                    map := some (map.reloaded files later) }) := by
    unfold fromCache
    simp only [same, found, loaded]
  rw [first.miss missed, cache, (second.hit hit).2, compileModule_result]
  exact ⟨rfl, rfl⟩

namespace Sample

def json : Json := .obj [
  ("file", .str "lib/../a.kl"), ("source", .str "struct A"),
  ("structs", .arr [.obj [("name", .str "A"), ("span", .arr ([1, 1, 1, 9].map .nat))]])]

def document : Document where
  file := "lib/../a.kl"
  source := some "struct A"
  structs := [{ name := "A", span := [1, 1, 1, 9] }]

def program (file : Nat) : Tenure.Module where
  name := "main"
  path := "lib/../a.kl"
  file := file
  structs := [{ name := "A", fields := [], copy := false, noClone := false, span := .of file 1 1 1 9 }]
  funcs := []
  exprs := #[]
  stmts := #[]
  bindings := #[]

def data : Bytes := Bytes.ofString json.indented

def call (files : FileSet) : Call where
  read _ := .ok data
  files := files
  url := "mem://a"

theorem json_plain (depth : Nat) : Json.Plain (depth + 4) json := by
  intro e mem
  simp only [List.mem_cons, List.not_mem_nil, or_false] at mem
  rcases mem with rfl | rfl | rfl
  · exact SourceMap.plain_str _ _
  · exact SourceMap.plain_str _ _
  · intro j mem
    cases List.mem_singleton.mp mem
    intro e mem
    simp only [List.mem_cons, List.not_mem_nil, or_false] at mem
    rcases mem with rfl | rfl
    · exact SourceMap.plain_str _ _
    · exact SourceMap.plain_nats _ _

theorem loads (files : FileSet) : (call files).Loads data document
    (files.addVirtual "lib/../a.kl" (Bytes.ofString "struct A")).1 (program files.files.length) := by
  have parsed : Json.parse? (Bytes.toText data) = some json := by
    rw [data, Bytes.toText_ofString]
    exact Json.parse?_indented (json_plain 9996)
  exact ⟨Call.document?_of rfl parsed rfl, rfl⟩

theorem isLocated (files : FileSet) : (call files).IsLocated := by
  intro m module
  rw [plain_result (loads files)] at module
  cases module
  rfl

theorem collisionFree (shelves : List FileSet) :
    Hash.CollisionFree ((shelves.map call).filterMap Call.keyText?) := by
  have only : ∀ t ∈ (shelves.map call).filterMap Call.keyText?,
      t = Cache.keyText {} data document.unitName := by
    intro t mem
    obtain ⟨q, mem, known⟩ := List.mem_filterMap.mp mem
    obtain ⟨files, -, rfl⟩ := List.mem_map.mp mem
    rw [(loads files).keyText?] at known
    exact (Option.some.inj known).symm
  intro a ha b hb _
  rw [only a ha, only b hb]

theorem generated : ∃ g map, (Analysis.of (program 0)).generate document.unitName = some g ∧
    g.map = some map ∧ ∀ s ∈ map.segments, s.Fits := by
  have sound : ((Analysis.of (program 0)).generate document.unitName).isSome = true := by
    decide +kernel
  obtain ⟨g, made⟩ := Option.isSome_iff_exists.mp sound
  obtain ⟨-, -, mapped⟩ := generate_spec made
  refine ⟨g, _, made, mapped, ?_⟩
  decide +kernel

theorem served (files : FileSet) : ((call {}).run (some {})).result.cached = false ∧
    ((call files).run ((call {}).run (some {})).shop.cache).result.cached = true := by
  obtain ⟨g, map, made, mapped, fits⟩ := generated
  exact served_again (loads {}) (loads files) rfl rfl made mapped fits rfl rfl

end Sample

/-- Compiling documents one after another with one cache, which is empty at first, comes to what
compiling each of them alone comes to. -/
theorem cache_transparent (calls : List Call)
    (free : Hash.CollisionFree (calls.filterMap Call.keyText?)) (located : ∀ q ∈ calls, q.IsLocated) :
    List.Forall₂ Call.Answers calls (session (some {}) calls) := by
  refine session_answers free calls located ?_ ?_
  · intro q mem t known
    exact List.mem_filterMap.mpr ⟨q, mem, known⟩
  · intro key u found
    cases found

theorem struct_served :
    let shelves : List FileSet := [{}, (({} : FileSet).addVirtual "b.kl" []).1]
    List.Forall₂ Call.Answers (shelves.map Sample.call) (session (some {}) (shelves.map Sample.call)) ∧
      (session (some {}) (shelves.map Sample.call)).map (·.result.cached) = [false, true] := by
  intro shelves
  refine ⟨cache_transparent _ (Sample.collisionFree shelves) ?_, ?_⟩
  · intro q mem
    obtain ⟨files, -, rfl⟩ := List.mem_map.mp mem
    exact Sample.isLocated files
  · obtain ⟨first, second⟩ := Sample.served (({} : FileSet).addVirtual "b.kl" []).1
    simp only [shelves, List.map_cons, List.map_nil, session, first, second]

end Build

end Tenure
