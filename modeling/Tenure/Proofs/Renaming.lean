import Tenure.SourceMap.Lookup

/- Files under other numbers. A map answers from the positions of its segments and from which of
   their files are the same, so numbers that stay apart can be exchanged before or after a lookup. -/
namespace Tenure

def Range.rename (ρ : Nat → Nat) (r : Range) : Range := { r with file := ρ r.file }

def Segment.rename (ρ : Nat → Nat) (s : Segment) : Segment :=
  { s with origin := s.origin.rename ρ, anchor := s.anchor.rename ρ, stmt := s.stmt.rename ρ }

def SourceMap.rename (ρ : Nat → Nat) (m : SourceMap) : SourceMap :=
  { m with segments := m.segments.map (Segment.rename ρ) }

def Resolved.rename (ρ : Nat → Nat) (r : Resolved) : Resolved :=
  { r with range := r.range.rename ρ, stmt := r.stmt.rename ρ }

namespace Range

variable {ρ : Nat → Nat} {r s : Range}

@[simp] theorem rename_isZero (ρ : Nat → Nat) (r : Range) : (r.rename ρ).isZero = r.isZero := rfl

theorem rename_file_eq_iff (apart : ρ r.file = ρ s.file → r.file = s.file) :
    (r.rename ρ).file = (s.rename ρ).file ↔ r.file = s.file :=
  ⟨apart, congrArg ρ⟩

theorem rename_eq_iff (apart : ρ r.file = ρ s.file → r.file = s.file) :
    r.rename ρ = s.rename ρ ↔ r = s := by
  constructor
  · intro same
    obtain ⟨file, start, stop⟩ := Range.mk.inj same
    cases r
    cases s
    simp_all
  · exact congrArg (rename ρ)

theorem cover_rename (apart : ρ r.file = ρ s.file → r.file = s.file) :
    (r.rename ρ).cover (s.rename ρ) = (r.cover s).rename ρ := by
  unfold cover
  by_cases same : r.file = s.file
  · rw [if_neg (not_not_intro same), if_neg (not_not_intro ((rename_file_eq_iff apart).mpr same))]
    rfl
  · rw [if_pos same, if_pos fun h => same ((rename_file_eq_iff apart).mp h)]

theorem contains_rename (apart : ρ r.file = ρ s.file → r.file = s.file) :
    (r.rename ρ).contains (s.rename ρ) = r.contains s := by
  have same : ((r.rename ρ).file == (s.rename ρ).file) = (r.file == s.file) := by
    rw [Bool.eq_iff_iff, beq_iff_eq, beq_iff_eq]
    exact rename_file_eq_iff apart
  unfold contains
  rw [same]
  rfl

theorem clamp_rename (apart : ρ r.file = ρ s.file → r.file = s.file) :
    (r.rename ρ).clamp (s.rename ρ) = (r.clamp s).rename ρ := by
  have same : ((r.rename ρ).file != (s.rename ρ).file) = (r.file != s.file) := by
    rw [Bool.eq_iff_iff, bne_iff_ne, bne_iff_ne]
    exact not_congr (rename_file_eq_iff apart)
  unfold clamp
  rw [contains_rename fun h => (apart h.symm).symm, same, rename_isZero, rename_isZero]
  split
  · rfl
  split
  · rfl
  rw [apply_ite (rename ρ)]
  rfl

@[simp] theorem cover_file (r s : Range) : (r.cover s).file = r.file := by
  unfold cover
  split <;> rfl

end Range

def Segment.files (s : Segment) : List Nat := [s.origin.file, s.anchor.file, s.stmt.file]

def Apart (ρ : Nat → Nat) (segments : List Segment) : Prop :=
  ∀ s ∈ segments, ∀ t ∈ segments, ∀ f ∈ s.files, ∀ g ∈ t.files, ρ f = ρ g → f = g

namespace SourceMap

variable {ρ : Nat → Nat}

theorem foldl_cover_rename (run : List Segment) (r : Range)
    (apart : ∀ s ∈ run, ρ r.file = ρ s.anchor.file → r.file = s.anchor.file) :
    (run.map (Segment.rename ρ)).foldl (fun r next => r.cover next.anchor) (r.rename ρ) =
      (run.foldl (fun r next => r.cover next.anchor) r).rename ρ := by
  induction run generalizing r with
  | nil => rfl
  | cons s run ih =>
    have here : (r.rename ρ).cover (s.rename ρ).anchor = (r.cover s.anchor).rename ρ :=
      Range.cover_rename (apart s List.mem_cons_self)
    rw [List.map_cons, List.foldl_cons, List.foldl_cons, here]
    apply ih
    intro t mem
    rw [Range.cover_file]
    exact apart t (List.mem_cons_of_mem s mem)

theorem foldl_cover_file (run : List Segment) (r : Range) :
    (run.foldl (fun r next => r.cover next.anchor) r).file = r.file := by
  induction run generalizing r with
  | nil => rfl
  | cons s run ih => rw [List.foldl_cons, ih, Range.cover_file]

theorem run_rename {s : Segment} {rest : List Segment} (stop : Nat)
    (apart : ∀ t ∈ rest, ρ t.stmt.file = ρ s.stmt.file → t.stmt.file = s.stmt.file) :
    (rest.map (Segment.rename ρ)).takeWhile
        (fun next => next.start < stop && next.stmt == (s.rename ρ).stmt) =
      (rest.takeWhile fun next => next.start < stop && next.stmt == s.stmt).map
        (Segment.rename ρ) := by
  induction rest with
  | nil => rfl
  | cons t rest ih =>
    have same : ((t.rename ρ).stmt == (s.rename ρ).stmt) = (t.stmt == s.stmt) := by
      rw [Bool.eq_iff_iff, beq_iff_eq, beq_iff_eq]
      exact Range.rename_eq_iff (apart t List.mem_cons_self)
    have tail := ih fun u mem => apart u (List.mem_cons_of_mem t mem)
    rw [List.map_cons, List.takeWhile_cons, List.takeWhile_cons, same, tail]
    rw [apply_ite (List.map (Segment.rename ρ))]
    rfl

theorem resolveIn_rename {s : Segment} {rest : List Segment} (apart : Apart ρ (s :: rest))
    (stop : Nat) : resolveIn (s.rename ρ) (rest.map (Segment.rename ρ)) stop =
      (resolveIn s rest stop).rename ρ := by
  have here : s ∈ s :: rest := List.mem_cons_self
  have stmts : ∀ t ∈ rest, ρ t.stmt.file = ρ s.stmt.file → t.stmt.file = s.stmt.file :=
    fun t mem => apart t (List.mem_cons_of_mem s mem) s here _ (by simp [Segment.files]) _
      (by simp [Segment.files])
  have anchors : ∀ t ∈ rest, ρ s.anchor.file = ρ t.anchor.file → s.anchor.file = t.anchor.file :=
    fun t mem => apart s here t (List.mem_cons_of_mem s mem) _ (by simp [Segment.files]) _
      (by simp [Segment.files])
  have within : ρ s.anchor.file = ρ s.stmt.file → s.anchor.file = s.stmt.file :=
    apart s here s here _ (by simp [Segment.files]) _ (by simp [Segment.files])
  unfold resolveIn
  by_cases single : (!s.synthetic && decide (stop ≤ s.stop)) = true
  · rw [if_pos single]
    exact if_pos single
  · rw [if_neg single]
    refine (if_neg single).trans ?_
    simp only [run_rename stop stmts]
    generalize which : rest.takeWhile (fun next => next.start < stop && next.stmt == s.stmt) = run
    have part : ∀ t ∈ run, t ∈ rest := fun t mem =>
      (List.takeWhile_sublist _).subset (which ▸ mem)
    have covered := foldl_cover_rename run s.anchor fun t mem => anchors t (part t mem)
    have cut := Range.clamp_rename (ρ := ρ) (s := s.stmt)
      (r := run.foldl (fun r next => r.cover next.anchor) s.anchor) (by rwa [foldl_cover_file])
    have start : (s.rename ρ).anchor = s.anchor.rename ρ := rfl
    have bound : (s.rename ρ).stmt = s.stmt.rename ρ := rfl
    rw [start, covered, bound, cut]
    rfl

theorem bisect_congr {xs ys : Array Segment}
    (stops : ∀ i : Nat, (xs[i]?.getD default).stop = (ys[i]?.getD default).stop) (offset fuel lo hi : Nat) :
    bisect xs offset fuel lo hi = bisect ys offset fuel lo hi := by
  induction fuel generalizing lo hi with
  | zero => rfl
  | succ fuel ih => simp only [bisect, stops, ih]

theorem search_rename (segments : List Segment) (offset : Nat) :
    search (segments.map (Segment.rename ρ)) offset = search segments offset := by
  rw [search, search, List.length_map]
  apply bisect_congr
  intro i
  rw [List.getElem?_toArray, List.getElem?_toArray, List.getElem?_map]
  cases segments[i]? <;> rfl

theorem nearest_rename (segments : List Segment) (i : Nat) :
    nearest (segments.map (Segment.rename ρ)) i = (nearest segments i).map (Resolved.rename ρ) := by
  rw [nearest, nearest, ← List.map_take, ← List.map_reverse, List.find?_map, Option.map_map,
    Option.map_map]
  rfl

theorem lookup_rename {m : SourceMap} (apart : Apart ρ m.segments) (start stop : Nat) :
    (m.rename ρ).lookup start stop = (m.lookup start stop).map (Resolved.rename ρ) := by
  unfold lookup
  simp only [rename, search_rename, nearest_rename, ← List.map_drop]
  cases behind : m.segments.drop (search m.segments start) with
  | nil => rfl
  | cons s rest =>
    have part : ∀ t ∈ s :: rest, t ∈ m.segments := fun t mem => List.mem_of_mem_drop (behind ▸ mem)
    rw [List.map_cons]
    simp only
    rw [resolveIn_rename fun t ht u hu => apart t (part t ht) u (part u hu)]
    rw [apply_ite (Option.map (Resolved.rename ρ))]
    rfl

end SourceMap

end Tenure
