import Tenure.Proofs.Association
import Tenure.Proofs.RelocatedMaps
import Tenure.Proofs.Reloading

/- Stored maps that can be read at all. Such a map holds words only, and read into files that know
   its path it is the map it was, in the newest file of that path. -/
namespace Tenure

namespace Json

variable {α : Type} {keys : List String} {ms : List (String × Json)}

theorem map_ok {ε β : Type} {f : α → β} {x : Except ε α} {y : β} (ok : x.map f = .ok y) :
    ∃ a, x = .ok a := by
  cases x with
  | error e => cases ok
  | ok a => exact ⟨a, rfl⟩

theorem small_of_readNatBelow {bound n old x : Nat} (read : readNatBelow bound (.nat n) old = .ok x) :
    n < bound := by
  simp only [readNatBelow, Json.nat, decimal?_written] at read
  split at read
  · assumption
  · cases read

theorem each_of_readElems {zero : α} {reader : Reader α} {js : List Json} {olds xs : List α}
    (read : readElems zero reader js olds = .ok xs) : ∀ j ∈ js, ∃ old x, reader j old = .ok x := by
  induction js generalizing olds xs with
  | nil => nofun
  | cons j js ih =>
    obtain ⟨x, first, read⟩ := ok_of_bind read
    obtain ⟨ys, rest, -⟩ := ok_of_bind read
    exact List.forall_mem_cons.mpr ⟨⟨_, x, first⟩, ih rest⟩

theorem small_of_readFixed {bound : Nat} (ns : List Nat) {olds xs : List Nat}
    (read : readFixed 0 (readNatBelow bound) ns.length (.arr (ns.map .nat)) olds = .ok xs) :
    ∀ n ∈ ns, n < bound := by
  have whole : (ns.map Json.nat).take ns.length = ns.map Json.nat :=
    List.take_of_length_le (Nat.le_of_eq (List.length_map _))
  rw [readFixed, whole] at read
  obtain ⟨ys, all, -⟩ := ok_of_bind read
  intro n mem
  obtain ⟨old, x, one⟩ := each_of_readElems all (.nat n) (List.mem_map_of_mem mem)
  exact small_of_readNatBelow one

theorem each_of_readMembers {set : String → Reader α}
    {x y : α} (read : readMembers keys set ms x = .ok y) {key field : String}
    {j : Json} (mem : (key, j) ∈ ms) (known : fieldFor keys key = some field) :
    ∃ a b, set field j a = .ok b := by
  induction ms generalizing x with
  | nil => cases mem
  | cons m ms ih =>
    obtain ⟨other, i⟩ := m
    rw [readMembers] at read
    rcases List.mem_cons.mp mem with here | later
    · cases here
      rw [known] at read
      obtain ⟨b, one, -⟩ := ok_of_bind read
      exact ⟨x, b, one⟩
    · split at read
      · obtain ⟨b, -, read⟩ := ok_of_bind read
        exact ih read later
      · exact ih read later

theorem read_of_member {β : Type} (reader : Reader β) {set : String → Reader α}
    {x y : α} (read : readMembers keys set ms x = .ok y) {key : String}
    {j : Json} (mem : (key, j) ∈ ms) (known : fieldFor keys key = some key) {get : α → β}
    {put : α → β → α} (part : ∀ a, set key j a = (reader j (get a)).map (put a)) :
    ∃ old v, reader j old = .ok v := by
  obtain ⟨a, b, one⟩ := each_of_readMembers read mem known
  rw [part] at one
  exact ⟨get a, map_ok one⟩

end Json

namespace SourceMap

section Words

variable {fs : FileSet} {s : Segment} {old r : Record}

variable {x : Range}

theorem fits_of_quad {old q : Option (List Nat)} (read : readQuad (quad x) old = .ok q) :
    x.Fits := by
  obtain ⟨a, fixed⟩ := Json.map_ok (f := some) read
  exact Json.small_of_readFixed (numbers x) fixed

theorem fits_of_zero (zero : x.isZero = true) : x.Fits := by
  simp only [Range.isZero, Pos.isZero, Bool.and_eq_true, beq_iff_eq] at zero
  obtain ⟨⟨line, col⟩, stopLine, stopCol⟩ := zero
  intro n mem
  simp only [line, col, stopLine, stopCol, List.mem_cons, List.not_mem_nil, or_false, or_self] at mem
  rw [mem]
  decide

theorem fits_of_said (key : String)
    (said : (key, quad x) ∈ quadUnlessZero key x → ∃ old q, readQuad (quad x) old = .ok q) :
    x.Fits := by
  cases zero : x.isZero with
  | true => exact fits_of_zero zero
  | false =>
    have mem : (key, quad x) ∈ quadUnlessZero key x := by
      rw [quadUnlessZero, if_neg (by simp [zero])]
      exact List.mem_singleton_self _
    obtain ⟨old, q, read⟩ := said mem
    exact fits_of_quad read

theorem fits_of_readRecord (read : readRecord (segmentJson fs s) old = .ok r) : s.Fits := by
  obtain ⟨_, _, start⟩ := Json.read_of_member Json.read32 read
    (show ("backend_start", Json.nat s.start) ∈ _ by simp) (by decide) fun _ => rfl
  obtain ⟨_, _, stop⟩ := Json.read_of_member Json.read32 read
    (show ("backend_end", Json.nat s.stop) ∈ _ by simp) (by decide) fun _ => rfl
  obtain ⟨_, _, first⟩ := Json.read_of_member readPair read
    (show ("original_start", Json.arr ([s.origin.start.line, s.origin.start.col].map .nat)) ∈ _ by simp)
    (by decide) fun _ => rfl
  obtain ⟨_, _, last⟩ := Json.read_of_member readPair read
    (show ("original_end", Json.arr ([s.origin.stop.line, s.origin.stop.col].map .nat)) ∈ _ by simp)
    (by decide) fun _ => rfl
  have anchor : s.anchor.Fits := by
    apply fits_of_said "anchor"
    intro said
    exact Json.read_of_member readQuad read (show ("anchor", quad s.anchor) ∈ _ by simp [said])
      (by decide) fun _ => rfl
  have stmt : s.stmt.Fits := by
    apply fits_of_said "stmt"
    intro said
    exact Json.read_of_member readQuad read (show ("stmt", quad s.stmt) ∈ _ by simp [said])
      (by decide) fun _ => rfl
  refine ⟨Json.small_of_readNatBelow start, Json.small_of_readNatBelow stop, ?_, anchor, stmt⟩
  have first := Json.small_of_readFixed [_, _] first
  have last := Json.small_of_readFixed [_, _] last
  intro n mem
  rcases List.mem_append.mp (show n ∈ [_, _] ++ [_, _] from mem) with here | there
  · exact first n here
  · exact last n there

theorem fits_of_readFile {m : SourceMap} {f : RecordFile} (read : readFile (toJson fs m) {} = .ok f) :
    ∀ s ∈ m.segments, s.Fits := by
  obtain ⟨_, _, elems⟩ := Json.read_of_member (Json.readList {} readRecord) read
    (show ("entries", Json.arr (m.segments.map (segmentJson fs))) ∈ _ by simp) (by decide) fun _ => rfl
  intro s mem
  obtain ⟨old, r, record⟩ := Json.each_of_readElems elems _ (List.mem_map_of_mem mem)
  exact fits_of_readRecord record

end Words

theorem segmentsOf_files {fs : FileSet} {rs : List Record}
    (known : ∀ r ∈ rs, (fs.latest r.file).isSome) (i stop : Nat) : (segmentsOf fs i stop rs).1 = fs := by
  induction rs generalizing i stop with
  | nil => rfl
  | cons r rs ih =>
    rw [List.forall_mem_cons] at known
    obtain ⟨id, found⟩ := Option.isSome_iff_exists.mp known.1
    have same : fileFor fs r.file = (fs, id) := by
      rw [fileFor, found]
    rw [segmentsOf]
    split
    · rfl
    · simp only [same]
      exact ih known.2 _ _

section Placed

variable {fs into : FileSet} {file g : Nat} {path : String} {m : SourceMap}
  (placed : ∀ s ∈ m.segments, s.Placed file) (stands : pathOf fs file = some path)
  (newest : into.latest path = some g)

include placed

theorem rename_placed {ρ σ : Nat → Nat} (same : ρ file = σ file) : m.rename ρ = m.rename σ := by
  have segments : m.segments.map (Segment.rename ρ) = m.segments.map (Segment.rename σ) := by
    apply List.map_congr_left
    intro s mem
    have here := placed s mem
    simp only [Segment.rename, Range.rename, here.origin, here.anchor, here.stmt, same]
  rw [rename, rename, segments]

include stands

theorem storedPath_placed {s : Segment} (mem : s ∈ m.segments) : storedPath fs s = path := by
  obtain ⟨f, found, rfl⟩ := Option.map_eq_some_iff.mp stands
  simp only [storedPath, (placed s mem).origin, found]

theorem whole_placed : ∀ s ∈ m.segments, Whole fs s := by
  intro s mem
  obtain ⟨f, found, -⟩ := Option.map_eq_some_iff.mp stands
  have here := placed s mem
  refine ⟨here.anchorKnown, here.stmtKnown, ?_, ?_, ?_⟩
  · rw [here.anchor, here.origin]
  · rw [here.stmt, here.origin]
  · rw [here.origin, found]
    rfl

include newest

theorem load_files : (load into (store fs m)).1 = into := by
  rw [load, parse?_store]
  dsimp only
  cases read : readFile (toJson fs m) {} with
  | error e => rfl
  | ok f =>
    rw [readFile_toJson fs (fits_of_readFile read)] at read
    cases read
    dsimp only
    rw [if_neg (not_not_intro rfl)]
    refine segmentsOf_files ?_ 0 0
    intro r mem
    obtain ⟨s, kept, rfl⟩ := List.mem_map.mp mem
    rw [record, storedPath_placed placed stands kept, newest]
    rfl

theorem load_placed (ordered : m.Ordered) {later : FileSet} {again : SourceMap}
    (loaded : load into (store fs m) = (later, .ok again)) : again = m.rename fun _ => g := by
  have fits : ∀ s ∈ m.segments, s.Fits := by
    rw [load, parse?_store] at loaded
    dsimp only at loaded
    cases read : readFile (toJson fs m) {} with
    | error e =>
      rw [read] at loaded
      cases loaded
    | ok f => exact fits_of_readFile read
  obtain ⟨_, keeps, -, same⟩ := load_store fs into ordered fits
  rw [loaded] at same
  cases same
  rw [reloaded_eq_rename (whole_placed placed stands)]
  apply rename_placed placed
  rw [renumber, stands, Option.getD_some, number, keeps _ _ newest, Option.getD_some]

end Placed

end SourceMap

theorem generated_ordered {a : Analysis} {name : String} {u : Generated} {map : SourceMap}
    (made : a.generate name = some u) (mapped : u.map = some map) : map.Ordered := by
  obtain ⟨-, -, built⟩ := generate_spec made
  obtain rfl := Option.some.inj (mapped.symm.trans built)
  exact SourceMap.build_ordered _ _ _

theorem isLocated_rename (ρ : Nat → Nat) (m : Module) (file : Nat) :
    (m.respan (Range.rename ρ) file).isLocated = m.isLocated := by
  have stmt (s : Stmt) : (s.respan (Range.rename ρ)).isLocated = s.isLocated := by
    cases s <;> rfl
  simp only [Module.isLocated, Module.respan, List.all_map, Array.toList_map, Function.comp_def, stmt]
  rfl

end Tenure
