import Tenure.Proofs.Declarations
import Tenure.Proofs.Reloading
import Tenure.Proofs.Spans
import Tenure.SourceMap.Lookup

/- Looking up a region of a generated text. The answer is a part of the statement that the region
   starts in, or of the one before it when the region starts between declarations. Halving finds the
   segment that a scan from the left finds, in every map that was built or read, also where segments are
   empty or leave gaps. -/
namespace Tenure

theorem Range.contains_iff {r s : Range} :
    r.contains s = true ↔
      r.file = s.file ∧ s.start.less r.start = false ∧ r.stop.less s.stop = false := by
  simp [Range.contains, and_assoc]

theorem Range.clamp_contained {r bound : Range} (known : bound.isZero = false) :
    bound.contains (r.clamp bound) = true := by
  have self := Range.contains_self bound
  have irrefl : ∀ p : Pos, p.less p = false := fun p => Pos.less_false_iff.mpr (by omega)
  have lo : (if r.start.less bound.start then bound.start else r.start).less bound.start = false := by
    split
    · exact irrefl _
    · simp_all
  have hi : bound.stop.less (if bound.stop.less r.stop then bound.stop else r.stop) = false := by
    split
    · exact irrefl _
    · simp_all
  unfold Range.clamp
  rw [known, Bool.false_or]
  split
  · assumption
  · split
    · exact self
    · rename_i elsewhere
      have file : bound.file = r.file := by
        simp only [Bool.or_eq_true, bne_iff_ne, ne_eq, not_or, not_not] at elsewhere
        exact elsewhere.2.symm
      dsimp only
      generalize (if r.start.less bound.start then bound.start else r.start) = start at lo
      generalize (if bound.stop.less r.stop then bound.stop else r.stop) = stop at hi
      split
      · exact self
      · exact Range.contains_iff.mpr ⟨file, lo, hi⟩

namespace SourceMap

variable {segments : List Segment}

theorem bisect_eq {offset k : Nat}
    (boundary : ∀ i s, segments[i]? = some s → (s.stop ≤ offset ↔ i < k)) :
    ∀ {fuel lo hi : Nat}, lo ≤ k → k ≤ hi → hi ≤ segments.length → hi - lo < fuel →
      bisect segments.toArray offset fuel lo hi = k := by
  intro fuel
  induction fuel with
  | zero =>
    intro lo hi _ _ _ short
    omega
  | succ fuel ih =>
    intro lo hi below above inside short
    rw [bisect]
    split
    · have mid : (lo + hi) / 2 < segments.length := by omega
      have side := boundary _ _ (List.getElem?_eq_getElem mid)
      simp only [List.getElem?_toArray, List.getElem?_eq_getElem mid, Option.getD_some]
      split
      · exact ih (by omega) above inside (by omega)
      · exact ih below (by omega) (by omega) (by omega)
    · omega

theorem stop_le_iff {offset : Nat}
    (sorted : segments.Pairwise fun s t => s.stop ≤ t.stop) (i : Nat) (s : Segment)
    (found : segments[i]? = some s) :
    s.stop ≤ offset ↔ i < (segments.takeWhile (·.stop ≤ offset)).length := by
  induction segments generalizing i with
  | nil => simp at found
  | cons t ts ih =>
    rw [List.pairwise_cons] at sorted
    by_cases early : t.stop ≤ offset
    · rw [List.takeWhile_cons_of_pos (by simpa using early), List.length_cons]
      cases i with
      | zero =>
        obtain rfl := Option.some.inj found
        simpa using early
      | succ i =>
        rw [Nat.add_lt_add_iff_right]
        exact ih sorted.2 i found
    · rw [List.takeWhile_cons_of_neg (by simpa using early), List.length_nil]
      -- `t` ends behind the offset, and so does whatever follows it.
      have later : t.stop ≤ s.stop := by
        cases i with
        | zero =>
          obtain rfl := Option.some.inj found
          exact Nat.le_refl _
        | succ i => exact sorted.1 s (List.mem_of_getElem? found)
      omega

theorem search_eq (sorted : segments.Pairwise fun s t => s.stop ≤ t.stop) (offset : Nat) :
    search segments offset = (segments.takeWhile (·.stop ≤ offset)).length := by
  have short := (segments.takeWhile_sublist (fun s => decide (s.stop ≤ offset))).length_le
  exact bisect_eq (stop_le_iff sorted) (Nat.zero_le _) short (Nat.le_refl _) (by omega)

section Halves

variable {segments : List Segment} (sorted : segments.Pairwise fun s t => s.stop ≤ t.stop)

include sorted

theorem drop_search (offset : Nat) :
    segments.drop (search segments offset) = segments.dropWhile (·.stop ≤ offset) := by
  have cut : (segments.takeWhile (·.stop ≤ offset) ++ segments.dropWhile (·.stop ≤ offset)).drop
      (search segments offset) = segments.dropWhile (·.stop ≤ offset) := by
    rw [search_eq sorted, List.drop_left]
  rwa [List.takeWhile_append_dropWhile] at cut

theorem take_search (offset : Nat) :
    segments.take (search segments offset) = segments.takeWhile (·.stop ≤ offset) := by
  have cut : (segments.takeWhile (·.stop ≤ offset) ++ segments.dropWhile (·.stop ≤ offset)).take
      (search segments offset) = segments.takeWhile (·.stop ≤ offset) := by
    rw [search_eq sorted, List.take_left]
  rwa [List.takeWhile_append_dropWhile] at cut

theorem passed_eq (offset : Nat) :
    segments.takeWhile (·.stop ≤ offset) = segments.filter (·.stop ≤ offset) := by
  induction segments with
  | nil => rfl
  | cons s ss ih =>
    rw [List.pairwise_cons] at sorted
    by_cases early : s.stop ≤ offset
    · simp [early, ih sorted.2]
    · have behind : ∀ t ∈ ss, ¬t.stop ≤ offset := fun t ht => by have := sorted.1 t ht; omega
      simpa [early] using behind

theorem mem_passed {offset : Nat} {t : Segment} (ht : t ∈ segments) (early : t.stop ≤ offset) :
    t ∈ segments.takeWhile (·.stop ≤ offset) := by
  rw [passed_eq sorted]
  simp [ht, early]

theorem last_passed {offset : Nat} {s : Segment}
    (last : (segments.takeWhile (·.stop ≤ offset)).getLast? = some s) :
    s ∈ segments ∧ s.stop ≤ offset ∧ ∀ t ∈ segments, t.stop ≤ offset → t.stop ≤ s.stop := by
  have part := segments.takeWhile_sublist (fun s => decide (s.stop ≤ offset))
  have member := List.mem_of_getLast? last
  refine ⟨part.subset member, by simpa using List.mem_takeWhile_imp member, ?_⟩
  intro t ht early
  have passed := mem_passed sorted ht early
  obtain ⟨front, split⟩ := List.getLast?_eq_some_iff.mp last
  have order := sorted.sublist part
  rw [split, List.pairwise_append] at order
  rw [split, List.mem_append, List.mem_singleton] at passed
  rcases passed with before | rfl
  · exact order.2.2 t before s (by simp)
  · exact Nat.le_refl _

end Halves

theorem nearest_eq (known : ∀ s ∈ segments, s.stmt.isZero = false) (i : Nat) :
    nearest segments i = (segments.take i).getLast?.map fun s =>
      { range := s.stmt, stmt := s.stmt, approximate := true } := by
  have first : ∀ ss : List Segment, (∀ s ∈ ss, s.stmt.isZero = false) →
      ss.find? (fun s => !s.stmt.isZero) = ss.head? := by
    intro ss h
    cases ss with
    | nil => rfl
    | cons s ss => simp [h s (by simp)]
  rw [nearest, first _ (by simpa using fun s h => known s (List.mem_of_mem_take h)), List.head?_reverse]

/-- The segment that an answer for `start` comes from: the one that holds it or, when none does, the
closest before it. -/
def Answers (segments : List Segment) (start : Nat) (s : Segment) : Prop :=
  s ∈ segments ∧ (s.contains start = true ∨
    (¬∃ t ∈ segments, t.contains start = true) ∧ s.stop ≤ start ∧
      ∀ t ∈ segments, t.stop ≤ start → t.stop ≤ s.stop)

theorem resolveIn_stmt (s : Segment) (rest : List Segment) (stop : Nat) :
    (resolveIn s rest stop).stmt = s.stmt := by
  unfold resolveIn
  split
  · rfl
  · rfl

theorem resolveIn_contained {s : Segment} (known : s.stmt.isZero = false)
    (sound : s.synthetic = false → s.stmt.contains s.origin = true) (rest : List Segment)
    (stop : Nat) : s.stmt.contains (resolveIn s rest stop).range = true := by
  unfold resolveIn
  split
  · rename_i precise
    simp only [Bool.and_eq_true, Bool.not_eq_true'] at precise
    exact sound precise.1
  · exact Range.clamp_contained known

theorem lookup_outside {m : SourceMap} {start : Nat} (outside : ¬∃ s ∈ m.segments, s.contains start = true)
    (stop : Nat) : m.lookup start stop = nearest m.segments (search m.segments start) := by
  rw [lookup]
  split
  · rename_i s rest found
    have member : s ∈ m.segments := List.mem_of_mem_drop (by rw [found]; simp)
    exact if_neg fun inside => outside ⟨s, member, inside⟩
  · rfl

section Ordered

variable {m : SourceMap} (ordered : m.Ordered)

include ordered

theorem stops_sorted : m.segments.Pairwise fun s t => s.stop ≤ t.stop := by
  refine ordered.apart.imp_of_mem ?_
  intro s t hs ht before
  have := ordered.filled t ht
  omega

variable {s : Segment}

theorem held_split {start : Nat} {before rest : List Segment}
    (split : m.segments = before ++ s :: rest) (inside : s.contains start = true) :
    ∀ t ∈ before, t.stop ≤ start := by
  intro t ht
  have apart := ordered.apart
  rw [split, List.pairwise_append] at apart
  have := apart.2.2 t ht s (by simp)
  rw [segment_contains_iff] at inside
  omega

theorem drop_held {start : Nat} {before rest : List Segment}
    (split : m.segments = before ++ s :: rest) (inside : s.contains start = true) :
    m.segments.drop (search m.segments start) = s :: rest := by
  rw [drop_search (stops_sorted ordered), split,
    List.dropWhile_append_of_pos (by simpa using held_split ordered split inside),
    List.dropWhile_cons_of_neg]
  rw [segment_contains_iff] at inside
  simp only [decide_eq_true_eq]
  omega

theorem lookup_held {start : Nat} {before rest : List Segment}
    (split : m.segments = before ++ s :: rest) (inside : s.contains start = true) (stop : Nat) :
    m.lookup start stop = some (resolveIn s rest (max start stop)) := by
  rw [lookup, drop_held ordered split inside]
  exact if_pos inside

end Ordered

section Lookup

variable {m : SourceMap} (filled : ∀ s ∈ m.segments, s.start < s.stop)
  (apart : m.segments.Pairwise fun s t => s.stop ≤ t.start)

include filled apart

theorem ordered_of_filled : m.Ordered := ⟨fun s hs => Nat.le_of_lt (filled s hs), apart⟩

theorem lookup_written {s : Segment} (hs : s ∈ m.segments) (written : s.synthetic = false)
    {start stop : Nat} (lo : s.start ≤ start) (ahead : start < stop) (hi : stop ≤ s.stop) :
    m.lookup start stop = some { range := s.origin, stmt := s.stmt } := by
  obtain ⟨before, rest, split⟩ := List.append_of_mem hs
  have ordered := ordered_of_filled filled apart
  have found := lookup_held ordered split (segment_contains_iff.mpr ⟨lo, by omega⟩) stop
  have inside : max start stop ≤ s.stop := by omega
  simp [found, resolveIn, written, inside]

variable (known : ∀ s ∈ m.segments, s.stmt.isZero = false)

include known

theorem lookup_between {start : Nat} (outside : ¬∃ s ∈ m.segments, s.contains start = true)
    (stop : Nat) :
    m.lookup start stop = (m.segments.takeWhile (·.stop ≤ start)).getLast?.map fun s =>
      { range := s.stmt, stmt := s.stmt, approximate := true } := by
  have sorted := stops_sorted (ordered_of_filled filled apart)
  rw [lookup_outside outside, nearest_eq known, take_search sorted]

theorem lookup_none_iff (start stop : Nat) :
    m.lookup start stop = none ↔ ∀ s ∈ m.segments, start < s.start := by
  have ordered := ordered_of_filled filled apart
  have sorted := stops_sorted ordered
  by_cases held : ∃ s ∈ m.segments, s.contains start = true
  · obtain ⟨s, hs, inside⟩ := held
    obtain ⟨before, rest, split⟩ := List.append_of_mem hs
    have found := lookup_held ordered split inside stop
    rw [segment_contains_iff] at inside
    refine iff_of_false (by simp [found]) ?_
    intro before
    have := before s hs
    omega
  · rw [lookup_between filled apart known held, Option.map_eq_none_iff, List.getLast?_eq_none_iff]
    constructor
    · intro empty s hs
      have behind : ¬s.stop ≤ start := by
        intro early
        have passed := mem_passed sorted hs early
        rw [empty] at passed
        cases passed
      by_contra reached
      exact held ⟨s, hs, segment_contains_iff.mpr (by omega)⟩
    · intro before
      rw [List.takeWhile_eq_nil_iff]
      intro nonempty
      have member := m.segments.get_mem ⟨0, nonempty⟩
      have := before _ member
      have := filled _ member
      simp only [decide_eq_true_eq]
      omega

theorem lookup_answers
    (sound : ∀ s ∈ m.segments, s.synthetic = false → s.stmt.contains s.origin = true)
    {start stop : Nat} {r : Resolved} (found : m.lookup start stop = some r) :
    ∃ s, Answers m.segments start s ∧ r.stmt = s.stmt ∧ s.stmt.contains r.range = true := by
  have ordered := ordered_of_filled filled apart
  by_cases held : ∃ s ∈ m.segments, s.contains start = true
  · obtain ⟨s, hs, inside⟩ := held
    obtain ⟨before, rest, split⟩ := List.append_of_mem hs
    rw [lookup_held ordered split inside] at found
    obtain rfl := Option.some.inj found
    exact ⟨s, ⟨hs, Or.inl inside⟩, resolveIn_stmt _ _ _,
      resolveIn_contained (known s hs) (sound s hs) _ _⟩
  · rw [lookup_between filled apart known held, Option.map_eq_some_iff] at found
    obtain ⟨s, last, rfl⟩ := found
    obtain ⟨hs, early, closest⟩ := last_passed (stops_sorted ordered) last
    exact ⟨s, ⟨hs, Or.inr ⟨held, early, closest⟩⟩, rfl, Range.contains_self _⟩

end Lookup

end SourceMap

open Backend (whole)

theorem segment_owned {a : Analysis} (spanned : a.module.isSpanned = true) {s : Segment}
    (hs : s ∈ SourceMap.flatten (((whole a).entries 0).map (Entry.shift 0))) :
    s.stmt.isZero = false ∧ (s.synthetic = false → s.stmt.contains s.origin = true) ∧
      (whole a).HasPassage s.stmt := by
  refine SourceMap.flatten_credits (P := fun c => c.stmt.isZero = false ∧
    (c.synthetic = false → c.stmt.contains c.origin = true) ∧ (whole a).HasPassage c.stmt) ?_ hs
  intro e member parent _
  obtain ⟨e, he, rfl⟩ := List.mem_map.mp member
  obtain ⟨known, sound, above | written⟩ := owned_entries (whole_owned spanned) he
  · cases above
  · have stmt : (SourceMap.inherit (e.shift 0) parent).credit.stmt = e.stmt := by
      cases parent <;> simp [SourceMap.inherit, SourceMap.Pending.credit, Entry.shift, known]
    rw [stmt]
    cases parent <;> exact ⟨known, sound, written⟩

theorem segment_innermost {a : Analysis} (spanned : a.module.isSpanned = true) {s : Segment}
    (hs : s ∈ SourceMap.flatten ((whole a).entries 0)) {b : Nat} (inside : s.contains b = true) :
    (whole a).Innermost 0 b s.stmt := by
  have credit := SourceMap.flatten_credit (Doc.entries_wellNested (whole a) 0) hs inside
  rw [Doc.around_entries] at credit
  cases chain : ((whole a).entries 0).filter (·.covers b) with
  | nil => simp [chain, SourceMap.creditOf] at credit
  | cons e outer =>
    have known := (owned_entries (whole_owned spanned) (mem_of_chain chain).1).1
    rw [chain, SourceMap.creditOf, Option.some.injEq, Segment.credit, Credit.mk.injEq] at credit
    obtain ⟨-, -, stmt, -⟩ := credit
    rw [SourceMap.stmtOf_known known] at stmt
    rw [← stmt]
    rcases owned_chain (whole_owned spanned) chain with ⟨missing, -⟩ | innermost
    · cases missing
    · exact innermost

/-- A lookup in the map of a generated text finds nothing only in front of all segments. Otherwise
its answer is part of the statement or declaration of one segment, which is the one that holds `start`
or else the closest one before it. As long as declarations end at words, that is the innermost one
around the bytes of the segment. -/
theorem lookup_stays_in_statement {a : Analysis} (spanned : a.module.isSpanned = true)
    {file : String} {u : Generated} (made : a.generate file = some u) (start stop : Nat) :
    ∃ m, u.map = some m ∧
      (m.lookup start stop = none ↔ ∀ s ∈ m.segments, start < s.start) ∧
      ∀ r, m.lookup start stop = some r → r.stmt.contains r.range = true ∧
        (whole a).HasPassage r.stmt ∧ ∃ s, SourceMap.Answers m.segments start s ∧ s.stmt = r.stmt ∧
          (a.EndsInWords → ∀ b, s.contains b = true → ∀ x, (whole a).Innermost 0 b x ↔ x = r.stmt) := by
  obtain ⟨-, -, map⟩ := generate_spec made
  refine ⟨_, map, ?_⟩
  have owned := fun s hs => segment_owned spanned (s := s) hs
  have filled : ∀ s ∈ SourceMap.flatten (((whole a).entries 0).map (Entry.shift 0)), s.start < s.stop :=
    fun s hs => SourceMap.flatten_filled hs
  have apart := SourceMap.flatten_pairwise (((whole a).entries 0).map (Entry.shift 0))
  have known := fun s hs => (owned s hs).1
  refine ⟨SourceMap.lookup_none_iff filled apart known start stop, ?_⟩
  intro r found
  obtain ⟨s, answers, stmt, inside⟩ :=
    SourceMap.lookup_answers filled apart known (fun s hs => (owned s hs).2.1) found
  rw [stmt]
  refine ⟨inside, (owned s answers.1).2.2, s, answers, rfl, ?_⟩
  intro ends b here x
  have hs := answers.1
  rw [SourceMap.build, ((endsInWords_iff a).mp ends).entries_shift] at hs
  have innermost := segment_innermost spanned hs here
  constructor
  · intro other
    exact innermost_unique other innermost
  · rintro rfl
    exact innermost

theorem lookup_stays_in_greeting :
    Sample.greeting.isSpanned = true ∧
      ∃ u m r, (Analysis.of Sample.greeting).generate = some u ∧ u.map = some m ∧
        m.lookup 216 300 = some r ∧ r.stmt.contains r.range = true := by
  have spanned : Sample.greeting.isSpanned = true := by decide
  obtain ⟨u, made, -⟩ := Sample.greeting_generated
  obtain ⟨m, map, nothing, contained⟩ := lookup_stays_in_statement spanned made 216 300
  obtain ⟨s, hs, inside⟩ :=
    (generate_covers_iff (Analysis.of Sample.greeting) 214).mpr (by decide +kernel)
  obtain ⟨-, -, built⟩ := generate_spec made
  rw [((endsInWords_iff _).mp Sample.greeting_ends).entries_shift] at built
  have member : s ∈ m.segments := by
    rw [Option.some.inj (map.symm.trans built)]
    exact hs
  refine ⟨spanned, u, m, ?_⟩
  cases found : m.lookup 216 300 with
  | none =>
    have := nothing.mp found s member
    have := SourceMap.segment_contains_iff.mp inside
    omega
  | some r => exact ⟨r, made, map, rfl, (contained r found).1⟩

namespace SourceMap

inductive Obtained : SourceMap → Prop
  | built (module generated : String) (entries : List Entry) :
    Obtained (build module generated entries)
  | loaded {fs later : FileSet} {text : String} {m : SourceMap}
      (read : load fs text = (later, .ok m)) : Obtained m

theorem segmentsOf_apart {fs later : FileSet} {i stop : Nat} {rs : List Record}
    {segments : List Segment} (read : segmentsOf fs i stop rs = (later, .ok segments)) :
    (∀ s ∈ segments, stop ≤ s.start ∧ s.start ≤ s.stop) ∧
      segments.Pairwise fun s t => s.stop ≤ t.start := by
  induction rs generalizing fs i stop segments with
  | nil =>
    cases read
    simp
  | cons r rs ih =>
    rw [segmentsOf] at read
    split at read
    · cases read
    · rename_i sound
      cases tail : segmentsOf (fileFor fs r.file).1 (i + 1) r.stop rs with
      | mk after rest =>
        simp only [tail] at read
        cases rest with
        | error e => cases read
        | ok rest =>
          cases read
          obtain ⟨behind, apart⟩ := ih tail
          refine ⟨?_, List.pairwise_cons.mpr ⟨fun t ht => (behind t ht).1, apart⟩⟩
          intro s hs
          rcases List.mem_cons.mp hs with rfl | hs
          · dsimp only
            omega
          · have := behind s hs
            omega

theorem Obtained.ordered {m : SourceMap} (obtained : Obtained m) : m.Ordered := by
  cases obtained with
  | built module generated entries => exact build_ordered module generated entries
  | @loaded fs later text _ read =>
    rw [load] at read
    split at read
    · cases read
    · split at read
      · cases read
      · rename_i f _
        split at read
        · cases read
        · cases parts : segmentsOf fs 0 0 f.entries with
          | mk after segments =>
            simp only [parts] at read
            cases segments with
            | error e => cases read
            | ok segments =>
              cases read
              obtain ⟨behind, apart⟩ := segmentsOf_apart parts
              exact ⟨fun s hs => (behind s hs).2, apart⟩

/-- The answer of a scan from the left. A region that starts in a segment of the author and stays
in it comes from there; another one is covered by the anchors of the segments that follow in the same
statement. A region that starts in no segment goes by the last statement that ends before it. -/
def scan (segments : List Segment) (start stop : Nat) : Option Resolved :=
  ((segments.find? (·.contains start)).map fun s =>
      if !s.synthetic && stop ≤ s.stop then { range := s.origin, stmt := s.stmt }
      else
        let behind := (segments.dropWhile (!·.contains start)).tail
        let run := behind.takeWhile fun t => t.start < stop && t.stmt == s.stmt
        { range := ((run.map (·.anchor)).foldl Range.cover s.anchor).clamp s.stmt, stmt := s.stmt
          approximate := true, synthetic := s.synthetic }).or
    ((segments.filter fun s => !s.stmt.isZero && s.stop ≤ start).getLast?.map fun s =>
      { range := s.stmt, stmt := s.stmt, approximate := true })

section Ordered

variable {m : SourceMap} (ordered : m.Ordered) {start : Nat}

include ordered

theorem search_finds : m.segments[search m.segments start]?.filter (·.contains start) =
    m.segments.find? (·.contains start) := by
  cases found : m.segments.find? (·.contains start) with
  | some s =>
    obtain ⟨inside, before, rest, split, -⟩ := List.find?_eq_some_iff_append.mp found
    rw [← List.head?_drop, drop_held ordered split inside, List.head?_cons, Option.filter_some, if_pos inside]
  | none =>
    rw [Option.filter_eq_none_iff]
    intro t ht
    exact List.find?_eq_none.mp found t (List.mem_of_getElem? ht)

theorem lookup_eq_scan (stop : Nat) :
    m.lookup start stop = scan m.segments start (max start stop) := by
  rw [scan]
  cases found : m.segments.find? (·.contains start) with
  | some s =>
    obtain ⟨inside, before, rest, split, first⟩ := List.find?_eq_some_iff_append.mp found
    have behind : m.segments.dropWhile (!·.contains start) = s :: rest := by
      rw [split, List.dropWhile_append_of_pos first, List.dropWhile_cons_of_neg (by simp [inside])]
    rw [lookup_held ordered split inside, behind, resolveIn]
    simp only [Option.map_some, Option.some_or, List.tail_cons, List.foldl_map]
  | none =>
    have outside : ¬∃ s ∈ m.segments, s.contains start = true := by
      simpa using List.find?_eq_none.mp found
    have sorted := stops_sorted ordered
    rw [lookup_outside outside, nearest, take_search sorted, passed_eq sorted, ← List.head?_filter,
      List.filter_reverse, ← List.getLast?_eq_head?_reverse, List.filter_filter]
    rfl

end Ordered

/-- In every map that was built or read, halving finds the segment that a scan from the left finds,
and the answer is that of the scan. -/
theorem lookup_scans {m : SourceMap} (obtained : Obtained m) (start stop : Nat) :
    m.segments[search m.segments start]?.filter (·.contains start) =
        m.segments.find? (·.contains start) ∧
      m.lookup start stop = scan m.segments start (max start stop) :=
  ⟨search_finds obtained.ordered, lookup_eq_scan obtained.ordered stop⟩

def Sample.gapped : SourceMap where
  module := "main"
  generated := "main.rs"
  segments := [
    ⟨0, 4, .of 2 1 1 1 5, .of 2 1 1 1 5, .of 2 1 1 2 1, false⟩,
    ⟨4, 4, .of 2 1 3 1 4, .of 2 1 3 1 4, .zero, true⟩,
    ⟨6, 9, .of 2 2 1 2 4, .of 2 2 1 2 4, .of 2 2 1 3 1, false⟩]

theorem gapped_scanned :
    ∃ later again, load {} (store Sample.shelf Sample.gapped) = (later, .ok again) ∧
      again.segments.map (fun s => (s.start, s.stop)) = [(0, 4), (4, 4), (6, 9)] ∧
      again.segments[search again.segments 4]?.filter (·.contains 4) =
        again.segments.find? (·.contains 4) ∧
      again.lookup 4 7 = scan again.segments 4 7 := by
  obtain ⟨later, -, -, read⟩ := load_store Sample.shelf {} (m := Sample.gapped) (by decide) (by decide)
  exact ⟨later, _, read, rfl, lookup_scans (.loaded read) 4 7⟩

end SourceMap

end Tenure
