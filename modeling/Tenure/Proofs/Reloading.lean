import Tenure.Proofs.Paths
import Tenure.Proofs.Readback
import Tenure.Proofs.Renaming
import Tenure.Proofs.Segments
import Tenure.SourceMap.Stored

/- Stored maps are read back. The file holds one record for each segment, and a record gives its
   segment again, in the file that its path stands for. -/
namespace Tenure

namespace Json

theorem decimal?_written (n : Nat) : decimal? (toString n).toList = some n := by
  have digits := digits_written n
  have whole : (toString n).toList.foldl (fun n c => 10 * n + (c.toNat - 48)) 0 = n := by
    rw [Nat.toString_eq_repr, Nat.toList_repr]
    exact Nat.ofDigitChars_eq_foldl ▸ Nat.ofDigitChars_toDigits (by decide) (by decide)
  obtain ⟨d, ds, first, -⟩ := first_digit n
  have all : ((toString n).toList.all fun c => '0' ≤ c && c ≤ '9') = true :=
    List.all_eq_true.mpr digits
  rw [decimal?, all, whole, first]
  rfl

theorem readNatBelow_nat {bound n : Nat} (small : n < bound) (old : Nat) :
    readNatBelow bound (.nat n) old = .ok n := by
  simp only [readNatBelow, Json.nat, decimal?_written, small, if_true]

theorem read32_nat {n : Nat} (small : n < range32) (old : Nat) : read32 (.nat n) old = .ok n :=
  readNatBelow_nat small old

theorem readElems_map {α β : Type} {zero : α} {read : Reader α} (write : β → Json) (value : β → α)
    (xs : List β) (olds : List α)
    (reads : ∀ x ∈ xs, ∀ old, old = zero ∨ old ∈ olds → read (write x) old = .ok (value x)) :
    readElems zero read (xs.map write) olds = .ok (xs.map value) := by
  induction xs generalizing olds with
  | nil => rfl
  | cons x xs ih =>
    have here : read (write x) (olds.head?.getD zero) = .ok (value x) := by
      apply reads x List.mem_cons_self
      cases olds with
      | nil => exact .inl rfl
      | cons old olds => exact .inr List.mem_cons_self
    have tail := ih olds.tail fun y mem old known =>
      reads y (List.mem_cons_of_mem x mem) old (known.imp_right List.mem_of_mem_tail)
    simp only [List.map_cons, readElems, here, tail]
    rfl

theorem readFixed_nats {bound : Nat} (ns : List Nat) (small : ∀ n ∈ ns, n < bound) (olds : List Nat) :
    readFixed 0 (readNatBelow bound) ns.length (.arr (ns.map .nat)) olds = .ok ns := by
  have all : readElems 0 (readNatBelow bound) (ns.map .nat) olds = .ok (ns.map id) :=
    readElems_map .nat id ns olds fun n mem old _ => readNatBelow_nat (small n mem) old
  rw [List.map_id] at all
  have whole : (ns.map Json.nat).take ns.length = ns.map Json.nat :=
    List.take_of_length_le (Nat.le_of_eq (List.length_map _))
  simp only [readFixed, whole, all]
  simp [bind, Except.bind, pure, Except.pure]

theorem readMembers_append {α : Type} (keys : List String) (set : String → Reader α)
    (ms ns : List (String × Json)) (x : α) :
    readMembers keys set (ms ++ ns) x = (readMembers keys set ms x).bind (readMembers keys set ns) := by
  induction ms generalizing x with
  | nil => rfl
  | cons m ms ih =>
    obtain ⟨key, j⟩ := m
    rw [List.cons_append, readMembers, readMembers]
    cases fieldFor keys key with
    | none => exact ih x
    | some field =>
      simp only [bind, Except.bind]
      cases set field j x with
      | error e => rfl
      | ok y => exact ih y

end Json

def Range.Fits (r : Range) : Prop :=
  ∀ n ∈ [r.start.line, r.start.col, r.stop.line, r.stop.col], n < range32

structure Segment.Fits (s : Segment) : Prop where
  start : s.start < range32
  stop : s.stop < range32
  origin : s.origin.Fits
  anchor : s.anchor.Fits
  stmt : s.stmt.Fits

instance (r : Range) : Decidable r.Fits :=
  inferInstanceAs (Decidable (∀ n ∈ [r.start.line, r.start.col, r.stop.line, r.stop.col], n < range32))

instance (s : Segment) : Decidable s.Fits :=
  decidable_of_iff (s.start < range32 ∧ s.stop < range32 ∧ s.origin.Fits ∧ s.anchor.Fits ∧ s.stmt.Fits)
    ⟨fun ⟨a, b, c, d, e⟩ => ⟨a, b, c, d, e⟩,
      fun f => ⟨f.start, f.stop, f.origin, f.anchor, f.stmt⟩⟩

namespace SourceMap

def numbers (r : Range) : List Nat := [r.start.line, r.start.col, r.stop.line, r.stop.col]

def numbersUnlessZero (r : Range) : Option (List Nat) := if r.isZero then none else some (numbers r)

def record (fs : FileSet) (s : Segment) : Record where
  start := s.start
  stop := s.stop
  file := storedPath fs s
  originStart := [s.origin.start.line, s.origin.start.col]
  originStop := [s.origin.stop.line, s.origin.stop.col]
  synthetic := s.synthetic
  anchor := numbersUnlessZero s.anchor
  stmt := numbersUnlessZero s.stmt

theorem readRecord_append (ms ns : List (String × Json)) (r : Record) :
    readRecord (.obj (ms ++ ns)) r = (readRecord (.obj ms) r).bind fun r => readRecord (.obj ns) r :=
  Json.readMembers_append _ _ ms ns r

theorem readPair_written {a b : Nat} (ha : a < range32) (hb : b < range32) (olds : List Nat) :
    readPair (.arr [.nat a, .nat b]) olds = .ok [a, b] := by
  apply Json.readFixed_nats [a, b]
  intro n mem
  rcases List.mem_cons.mp mem with rfl | mem
  · exact ha
  · cases List.mem_singleton.mp mem
    exact hb

theorem readQuad_written {r : Range} (fits : r.Fits) :
    readQuad (quad r) none = .ok (some (numbers r)) := by
  have read := Json.readFixed_nats (numbers r) fits (zeros 4)
  exact congrArg (Except.map some) read

variable {r : Record}

theorem readRecord_synthetic (b : Bool) (fresh : r.synthetic = false) :
    readRecord (.obj (Json.trueOnly "synthetic" b)) r = .ok { r with synthetic := b } := by
  cases b with
  | true => rfl
  | false => exact congrArg (fun b => Except.ok { r with synthetic := b }) fresh

theorem readRecord_anchor {x : Range} (fits : x.Fits) (fresh : r.anchor = none) :
    readRecord (.obj (quadUnlessZero "anchor" x)) r = .ok { r with anchor := numbersUnlessZero x } := by
  unfold quadUnlessZero numbersUnlessZero
  split
  · exact congrArg (fun q => Except.ok { r with anchor := q }) fresh
  · change ((readQuad (quad x) r.anchor).map _).bind _ = _
    rw [fresh, readQuad_written fits]
    rfl

theorem readRecord_stmt {x : Range} (fits : x.Fits) (fresh : r.stmt = none) :
    readRecord (.obj (quadUnlessZero "stmt" x)) r = .ok { r with stmt := numbersUnlessZero x } := by
  unfold quadUnlessZero numbersUnlessZero
  split
  · exact congrArg (fun q => Except.ok { r with stmt := q }) fresh
  · change ((readQuad (quad x) r.stmt).map _).bind _ = _
    rw [fresh, readQuad_written fits]
    rfl

theorem readRecord_fixed (path : String) {s : Segment} (fits : s.Fits) :
    readRecord (.obj [("backend_start", .nat s.start), ("backend_end", .nat s.stop),
      ("original_file", .str path),
      ("original_start", .arr [.nat s.origin.start.line, .nat s.origin.start.col]),
      ("original_end", .arr [.nat s.origin.stop.line, .nat s.origin.stop.col])]) {} =
    .ok { start := s.start, stop := s.stop, file := path
          originStart := [s.origin.start.line, s.origin.start.col]
          originStop := [s.origin.stop.line, s.origin.stop.col] } := by
  have words := fits.origin
  simp only [Range.Fits, List.forall_mem_cons] at words
  obtain ⟨line, col, stopLine, stopCol, -⟩ := words
  change ((Json.read32 (.nat s.start) 0).map _).bind _ = _
  rw [Json.read32_nat fits.start]
  change ((Json.read32 (.nat s.stop) 0).map _).bind _ = _
  rw [Json.read32_nat fits.stop]
  change ((readPair (.arr [.nat s.origin.start.line, .nat s.origin.start.col]) [0, 0]).map _).bind _ = _
  rw [readPair_written line col]
  change ((readPair (.arr [.nat s.origin.stop.line, .nat s.origin.stop.col]) [0, 0]).map _).bind _ = _
  rw [readPair_written stopLine stopCol]
  rfl

theorem readRecord_segmentJson (fs : FileSet) {s : Segment} (fits : s.Fits) :
    readRecord (segmentJson fs s) {} = .ok (record fs s) := by
  unfold segmentJson
  rw [readRecord_append, readRecord_append, readRecord_append, readRecord_fixed _ fits]
  change ((readRecord (.obj (Json.trueOnly _ _)) _).bind _).bind _ = _
  rw [readRecord_synthetic s.synthetic rfl]
  change (readRecord (.obj (quadUnlessZero "anchor" _)) _).bind _ = _
  rw [readRecord_anchor fits.anchor rfl]
  change readRecord (.obj (quadUnlessZero "stmt" _)) _ = _
  rw [readRecord_stmt fits.stmt rfl]
  rfl

theorem readFile_toJson (fs : FileSet) {m : SourceMap} (fits : ∀ s ∈ m.segments, s.Fits) :
    readFile (toJson fs m) {} =
      .ok ⟨formatVersion, m.module, m.generated, m.segments.map (record fs)⟩ := by
  have entries : Json.readElems {} readRecord (m.segments.map (segmentJson fs)) [] =
      .ok (m.segments.map (record fs)) := by
    apply Json.readElems_map
    intro s mem old known
    rcases known with rfl | none
    · exact readRecord_segmentJson fs (fits s mem)
    · cases none
  change ((Json.readElems {} readRecord (m.segments.map (segmentJson fs)) []).map _).bind _ = _
  rw [entries]
  rfl

theorem plain_nat (depth n : Nat) : Json.Plain depth (.nat n) := by
  cases depth <;> exact ⟨n, rfl⟩

theorem plain_str (depth : Nat) (s : String) : Json.Plain depth (.str s) := by
  cases depth <;> trivial

theorem plain_nats (depth : Nat) (ns : List Nat) : Json.Plain (depth + 1) (.arr (ns.map .nat)) := by
  intro j mem
  obtain ⟨n, -, rfl⟩ := List.mem_map.mp mem
  exact plain_nat depth n

theorem plain_quadUnlessZero (depth : Nat) (key : String) (r : Range) :
    ∀ e ∈ quadUnlessZero key r, Json.Plain (depth + 1) e.2 := by
  intro e mem
  unfold quadUnlessZero at mem
  split at mem
  · cases mem
  · cases List.mem_singleton.mp mem
    exact plain_nats depth (numbers r)

theorem plain_segmentJson (depth : Nat) (fs : FileSet) (s : Segment) :
    Json.Plain (depth + 2) (segmentJson fs s) := by
  intro e mem
  simp only [List.mem_append, or_assoc] at mem
  rcases mem with mem | mem | mem | mem
  · simp only [List.mem_cons, List.not_mem_nil, or_false] at mem
    rcases mem with rfl | rfl | rfl | rfl | rfl
    · exact plain_nat _ _
    · exact plain_nat _ _
    · exact plain_str _ _
    · exact plain_nats depth [_, _]
    · exact plain_nats depth [_, _]
  · unfold Json.trueOnly at mem
    split at mem
    · cases List.mem_singleton.mp mem
      trivial
    · cases mem
  · exact plain_quadUnlessZero depth _ _ e mem
  · exact plain_quadUnlessZero depth _ _ e mem

theorem plain_toJson (depth : Nat) (fs : FileSet) (m : SourceMap) :
    Json.Plain (depth + 4) (toJson fs m) := by
  intro e mem
  simp only [List.mem_cons, List.not_mem_nil, or_false] at mem
  rcases mem with rfl | rfl | rfl | rfl
  · exact ⟨1, rfl⟩
  · exact plain_str _ _
  · exact plain_str _ _
  · intro j mem
    obtain ⟨s, -, rfl⟩ := List.mem_map.mp mem
    exact plain_segmentJson depth fs s

theorem parse?_store (fs : FileSet) (m : SourceMap) : Json.parse? (store fs m) = some (toJson fs m) :=
  Json.parse?_indented (plain_toJson 9996 fs m)

end SourceMap

/-! ### Files by path -/

namespace FileSet

theorem latestFrom_append (p : String) (n : Nat) (files : List File) (f : File) :
    latestFrom p n (files ++ [f]) =
      if f.path = p then some (n + files.length) else latestFrom p n files := by
  induction files generalizing n with
  | nil =>
    by_cases same : f.path = p <;> simp [latestFrom, same]
  | cons g files ih =>
    rw [List.cons_append, latestFrom, ih, latestFrom, List.length_cons]
    split
    · rw [Option.some_or, Nat.add_right_comm, Nat.add_assoc]
    · rfl

theorem latest_add (fs : FileSet) (path : String) (content : Bytes) (flags : FileFlags) (q : String) :
    (fs.add path content flags).1.latest q =
      if normalPath path = normalPath q then some fs.files.length else fs.latest q := by
  have place := latestFrom_append (normalPath q) 0 fs.files ⟨normalPath path, content, flags⟩
  rw [Nat.zero_add] at place
  exact place

theorem latestFrom_some {p : String} {n id : Nat} {files : List File}
    (found : latestFrom p n files = some id) :
    ∃ i f, id = n + i ∧ files[i]? = some f ∧ f.path = p := by
  induction files generalizing n with
  | nil => cases found
  | cons g files ih =>
    rw [latestFrom] at found
    rcases Option.or_eq_some_iff.mp found with later | ⟨-, here⟩
    · obtain ⟨i, f, rfl, mem, path⟩ := ih later
      exact ⟨i + 1, f, by omega, mem, path⟩
    · split at here
      · cases here
        exact ⟨0, g, rfl, rfl, ‹_›⟩
      · cases here

theorem latest_path {fs : FileSet} {p : String} {id : Nat} (found : fs.latest p = some id) :
    (fs.get? id).map (·.path) = some (normalPath p) := by
  obtain ⟨i, f, rfl, mem, path⟩ := latestFrom_some found
  rw [get?, Nat.zero_add, mem, ← path]
  rfl

def Keeps (fs later : FileSet) : Prop :=
  ∀ p id, fs.latest p = some id → later.latest p = some id

theorem Keeps.trans {a b c : FileSet} (first : a.Keeps b) (second : b.Keeps c) : a.Keeps c :=
  fun p id known => second p id (first p id known)

end FileSet

namespace SourceMap

theorem fileFor_keeps (fs : FileSet) (p : String) : fs.Keeps (fileFor fs p).1 := by
  intro q id known
  unfold fileFor
  split
  · exact known
  · rename_i unknown
    rw [FileSet.addVirtual, FileSet.latest_add]
    split
    · rename_i same
      rw [FileSet.latest, ← same] at known
      rw [FileSet.latest, known] at unknown
      cases unknown
    · exact known

theorem fileFor_latest (fs : FileSet) (p : String) :
    (fileFor fs p).1.latest p = some (fileFor fs p).2 := by
  unfold fileFor
  split
  · assumption
  · rw [FileSet.addVirtual, FileSet.latest_add, if_pos rfl]
    rfl

def Record.segment (file : Nat) (r : Record) : Segment where
  start := r.start
  stop := r.stop
  origin := rangeOf file r.originStart r.originStop
  anchor := unquad file r.anchor
  stmt := unquad file r.stmt
  synthetic := r.synthetic

theorem segmentsOf_ordered (fs : FileSet) (i stop : Nat) (rs : List Record)
    (filled : ∀ r ∈ rs, r.start ≤ r.stop) (behind : ∀ r ∈ rs, stop ≤ r.start)
    (apart : rs.Pairwise fun r q => r.stop ≤ q.start) :
    ∃ later : FileSet, fs.Keeps later ∧ (∀ r ∈ rs, (later.latest r.file).isSome) ∧
      segmentsOf fs i stop rs =
        (later, .ok (rs.map fun r => r.segment ((later.latest r.file).getD 0))) := by
  induction rs generalizing fs i stop with
  | nil => exact ⟨fs, fun _ _ known => known, nofun, rfl⟩
  | cons r rs ih =>
    obtain ⟨next, tail⟩ := List.pairwise_cons.mp apart
    have sound : ¬(r.stop < r.start ∨ r.start < stop) := by
      have := filled r List.mem_cons_self
      have := behind r List.mem_cons_self
      omega
    obtain ⟨later, keeps, known, rest⟩ := ih (fileFor fs r.file).1 (i + 1) r.stop
      (fun q mem => filled q (List.mem_cons_of_mem r mem)) next tail
    have here : later.latest r.file = some (fileFor fs r.file).2 :=
      keeps _ _ (fileFor_latest fs r.file)
    refine ⟨later, (fileFor_keeps fs r.file).trans keeps, ?_, ?_⟩
    · intro q mem
      rcases List.mem_cons.mp mem with rfl | mem
      · rw [here]
        rfl
      · exact known q mem
    · rw [segmentsOf, if_neg sound]
      simp only [rest, List.map_cons, here]
      rfl

theorem unquad_numbers (file : Nat) (r : Range) :
    unquad file (numbersUnlessZero r) = if r.isZero then Range.zero else { r with file } := by
  unfold numbersUnlessZero
  split <;> rfl

def number (fs : FileSet) (path : String) : Nat := (fs.latest path).getD 0

def reloaded (fs later : FileSet) (m : SourceMap) : SourceMap :=
  { m with segments := m.segments.map fun s => (record fs s).segment (number later (storedPath fs s)) }

variable {m : SourceMap} {fs later : FileSet}

theorem load_store (fs into : FileSet) (ordered : m.Ordered) (fits : ∀ s ∈ m.segments, s.Fits) :
    ∃ later : FileSet, into.Keeps later ∧
      (∀ s ∈ m.segments, (later.latest (storedPath fs s)).isSome) ∧
      load into (store fs m) = (later, .ok (m.reloaded fs later)) := by
  obtain ⟨later, keeps, known, segments⟩ := segmentsOf_ordered into 0 0 (m.segments.map (record fs))
    (by
      intro r mem
      obtain ⟨s, kept, rfl⟩ := List.mem_map.mp mem
      exact ordered.filled s kept)
    (fun r _ => Nat.zero_le r.start)
    (List.pairwise_map.mpr ordered.apart)
  refine ⟨later, keeps, fun s mem => known _ (List.mem_map_of_mem mem), ?_⟩
  rw [load, parse?_store]
  simp only [readFile_toJson fs fits, segments, List.map_map]
  rfl

theorem storedPath_normal (built : fs.Built) (s : Segment) :
    FileSet.normalPath (storedPath fs s) = storedPath fs s := by
  have normal {id : Nat} {f : File} (known : fs.get? id = some f) :
      FileSet.normalPath f.path = f.path := built.normal f (List.mem_of_getElem? known)
  unfold storedPath
  split
  · exact normal ‹_›
  · cases known : fs.get? s.stmt.file with
    | none => decide
    | some f => exact normal known

theorem number_path {p : String} (known : (later.latest p).isSome) :
    (later.get? (number later p)).map (·.path) = some (FileSet.normalPath p) := by
  obtain ⟨id, found⟩ := Option.isSome_iff_exists.mp known
  rw [number, found]
  exact FileSet.latest_path found

theorem quadUnlessZero_unquad (key : String) (file : Nat) (r : Range) :
    quadUnlessZero key (unquad file (numbersUnlessZero r)) = quadUnlessZero key r := by
  rw [unquad_numbers]
  by_cases zero : r.isZero = true
  · rw [if_pos zero, quadUnlessZero, quadUnlessZero, if_pos zero]
    rfl
  · rw [if_neg zero]
    rfl

theorem segmentJson_record {s : Segment} {id : Nat}
    (path : (later.get? id).map (·.path) = some (storedPath fs s)) :
    segmentJson later ((record fs s).segment id) = segmentJson fs s := by
  have same : storedPath later ((record fs s).segment id) = storedPath fs s := by
    obtain ⟨f, found, is⟩ := Option.map_eq_some_iff.mp path
    have origin : later.get? ((record fs s).segment id).origin.file = some f := found
    simp only [storedPath, origin]
    exact is
  unfold segmentJson
  rw [same]
  simp only [Record.segment, record, quadUnlessZero_unquad]
  rfl

theorem store_reloaded (built : fs.Built)
    (known : ∀ s ∈ m.segments, (later.latest (storedPath fs s)).isSome) :
    store later (m.reloaded fs later) = store fs m := by
  have segments : (m.reloaded fs later).segments.map (segmentJson later) =
      m.segments.map (segmentJson fs) := by
    rw [reloaded, List.map_map]
    apply List.map_congr_left
    intro s mem
    apply segmentJson_record
    rw [number_path (known s mem), storedPath_normal built s]
  rw [store, store, toJson, segments]
  rfl

/-- The segment lies in one file, which `fs` has, and its anchor and statement are known. -/
structure Whole (fs : FileSet) (s : Segment) : Prop where
  anchor : s.anchor.isZero = false
  stmt : s.stmt.isZero = false
  anchorFile : s.anchor.file = s.origin.file
  stmtFile : s.stmt.file = s.origin.file
  registered : (fs.get? s.origin.file).isSome

instance (fs : FileSet) (s : Segment) : Decidable (Whole fs s) :=
  decidable_of_iff (s.anchor.isZero = false ∧ s.stmt.isZero = false ∧
      s.anchor.file = s.origin.file ∧ s.stmt.file = s.origin.file ∧ (fs.get? s.origin.file).isSome)
    ⟨fun ⟨a, b, c, d, e⟩ => ⟨a, b, c, d, e⟩,
      fun w => ⟨w.anchor, w.stmt, w.anchorFile, w.stmtFile, w.registered⟩⟩

def pathOf (fs : FileSet) (file : Nat) : Option String := (fs.get? file).map (·.path)

def PathsApart (fs : FileSet) (m : SourceMap) : Prop :=
  ∀ s ∈ m.segments, ∀ t ∈ m.segments,
    pathOf fs s.origin.file = pathOf fs t.origin.file → s.origin.file = t.origin.file

instance (fs : FileSet) (m : SourceMap) : Decidable (m.PathsApart fs) :=
  inferInstanceAs (Decidable (∀ s ∈ m.segments, ∀ t ∈ m.segments, _ → _))

def renumber (fs later : FileSet) (file : Nat) : Nat := number later ((pathOf fs file).getD "")

section Whole

variable {fs later : FileSet} {m : SourceMap}

theorem Whole.pathOf {s : Segment} (whole : Whole fs s) :
    pathOf fs s.origin.file = some (storedPath fs s) := by
  obtain ⟨f, found⟩ := Option.isSome_iff_exists.mp whole.registered
  simp only [SourceMap.storedPath, SourceMap.pathOf, found, Option.map_some]

variable {s : Segment}

theorem Whole.files (whole : Whole fs s) {file : Nat} (mem : file ∈ s.files) :
    file = s.origin.file := by
  simp only [Segment.files, whole.anchorFile, whole.stmtFile, List.mem_cons, List.not_mem_nil,
    or_false, or_self] at mem
  exact mem

theorem Whole.renumber {s : Segment} (whole : Whole fs s) :
    renumber fs later s.origin.file = number later (storedPath fs s) := by
  rw [SourceMap.renumber, whole.pathOf, Option.getD_some]

theorem segment_record (whole : Whole fs s) (ρ : Nat → Nat) :
    (record fs s).segment (ρ s.origin.file) = s.rename ρ := by
  have anchor : unquad (ρ s.origin.file) (numbersUnlessZero s.anchor) = s.anchor.rename ρ := by
    rw [unquad_numbers, whole.anchor, if_neg Bool.false_ne_true, ← whole.anchorFile]
    rfl
  have stmt : unquad (ρ s.origin.file) (numbersUnlessZero s.stmt) = s.stmt.rename ρ := by
    rw [unquad_numbers, whole.stmt, if_neg Bool.false_ne_true, ← whole.stmtFile]
    rfl
  simp only [Record.segment, record, anchor, stmt]
  rfl

theorem reloaded_eq_rename (whole : ∀ s ∈ m.segments, Whole fs s) :
    m.reloaded fs later = m.rename (renumber fs later) := by
  have segments : (m.segments.map fun s => (record fs s).segment (number later (storedPath fs s))) =
      m.segments.map (Segment.rename (renumber fs later)) := by
    apply List.map_congr_left
    intro s mem
    rw [← (whole s mem).renumber]
    exact segment_record (whole s mem) (renumber fs later)
  rw [reloaded, segments]
  rfl

theorem pathOf_renumber (built : fs.Built) (whole : Whole fs s)
    (known : (later.latest (storedPath fs s)).isSome) :
    pathOf later (renumber fs later s.origin.file) = pathOf fs s.origin.file := by
  rw [whole.renumber, pathOf, number_path known, storedPath_normal built s, whole.pathOf]

theorem renumber_apart (built : fs.Built) (whole : ∀ s ∈ m.segments, Whole fs s)
    (known : ∀ s ∈ m.segments, (later.latest (storedPath fs s)).isSome)
    (unique : m.PathsApart fs) : Apart (renumber fs later) m.segments := by
  intro s hs t ht f hf g hg same
  rw [(whole s hs).files hf, (whole t ht).files hg] at same ⊢
  apply unique s hs t ht
  rw [← pathOf_renumber built (whole s hs) (known s hs), same,
    pathOf_renumber built (whole t ht) (known t ht)]

end Whole

/-- A map that is stored and read into other files is written as it was. If each of its segments
lies in one file and no two of these files share a path, it is the map it was, but for the numbers
of the files, and it answers as it did. -/
theorem stored_map_reloads {fs : FileSet} {m : SourceMap} (built : fs.Built) (ordered : m.Ordered)
    (fits : ∀ s ∈ m.segments, s.Fits) (into : FileSet) :
    ∃ later again, load into (store fs m) = (later, .ok again) ∧ store later again = store fs m ∧
      ((∀ s ∈ m.segments, Whole fs s) → m.PathsApart fs →
        ∃ ρ : Nat → Nat, Apart ρ m.segments ∧
          (∀ s ∈ m.segments, pathOf later (ρ s.origin.file) = pathOf fs s.origin.file) ∧
          again = m.rename ρ ∧
          ∀ start stop, again.lookup start stop = (m.lookup start stop).map (Resolved.rename ρ)) := by
  obtain ⟨later, -, known, loaded⟩ := load_store fs into ordered fits
  refine ⟨later, m.reloaded fs later, loaded, store_reloaded built known, ?_⟩
  intro whole unique
  have apart := renumber_apart built whole known unique
  have same : m.reloaded fs later = m.rename (renumber fs later) := reloaded_eq_rename whole
  refine ⟨renumber fs later, apart, ?_, same, ?_⟩
  · exact fun s mem => pathOf_renumber built (whole s mem) (known s mem)
  · rw [same]
    exact lookup_rename apart

namespace Sample

def shelf : FileSet :=
  (((({} : FileSet).addVirtual "src/./a&b.kl" []).1.addVirtual "unused.kl" []).1.addVirtual
    "src/../main.kl" []).1

def mapped : SourceMap where
  module := "main"
  generated := "main.rs"
  segments := [
    ⟨0, 4, .of 2 1 1 1 5, .of 2 1 1 1 5, .of 2 1 1 2 1, false⟩,
    ⟨4, 9, .of 2 1 3 1 4, .of 2 1 3 1 4, .of 2 1 1 2 1, true⟩,
    ⟨12, 20, .of 0 7 1 7 9, .of 0 7 1 8 2, .of 0 7 1 8 2, false⟩]

theorem shelf_built : shelf.Built :=
  ((FileSet.Built.none {} rfl).add _ _ _ |>.add _ _ _).add _ _ _

end Sample

theorem mapped_reloads : ∃ later again, load {} (store Sample.shelf Sample.mapped) = (later, .ok again) ∧
    store later again = store Sample.shelf Sample.mapped ∧
    ∃ ρ : Nat → Nat, Apart ρ Sample.mapped.segments ∧
      (∀ s ∈ Sample.mapped.segments, pathOf later (ρ s.origin.file) = pathOf Sample.shelf s.origin.file) ∧
      again = Sample.mapped.rename ρ ∧
      ∀ start stop, again.lookup start stop = (Sample.mapped.lookup start stop).map (Resolved.rename ρ) := by
  obtain ⟨later, again, loaded, stored, rest⟩ := stored_map_reloads Sample.shelf_built
    (m := Sample.mapped) (by decide) (by decide) {}
  exact ⟨later, again, loaded, stored, rest (by decide) (by decide)⟩

end SourceMap

end Tenure
