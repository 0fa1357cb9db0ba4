import Mathlib.Algebra.BigOperators.Group.List.Basic
import Mathlib.Algebra.Ring.Int.Defs
import Mathlib.Algebra.Ring.Nat
import Tenure.Repair.Buffer

/- Patches put into a text at once, each at the place it has in the text before any of them, and the
   buffer that puts them in one after another. The two agree as long as no patch swallows another: an
   insertion that stands right behind a region is lost when the region is replaced after it. -/
namespace Tenure

namespace Patch

def covers (p : Patch) (k : Nat) : Bool := p.start ≤ k && k < p.stop

/-- An earlier insertion of some text stands right behind the region. -/
def swallows (p q : Patch) : Bool :=
  !p.isInsertion && q.isInsertion && q.start == p.stop && !q.text.isEmpty

structure Fits (size : Nat) (ps : List Patch) (p : Patch) : Prop where
  ordered : p.start ≤ p.stop
  inside : p.stop ≤ size
  apart : ∀ q ∈ ps, q.overlaps p = false

@[simp] theorem covers_iff {p : Patch} {k : Nat} : p.covers k = true ↔ p.start ≤ k ∧ k < p.stop := by
  simp [covers]

theorem swallows_iff {p q : Patch} :
    p.swallows q = true ↔ p.start ≠ p.stop ∧ q.start = q.stop ∧ q.start = p.stop ∧ q.text ≠ [] := by
  simp [swallows, isInsertion, and_assoc]

theorem apart_iff {q p : Patch} : q.overlaps p = false ↔
    (q.start = q.stop → p.start ≠ p.stop → q.start < p.start ∨ p.stop ≤ q.start) ∧
    (q.start ≠ q.stop → p.start = p.stop → p.start < q.start ∨ q.stop ≤ p.start) ∧
    (q.start ≠ q.stop → p.start ≠ p.stop → p.stop ≤ q.start ∨ q.stop ≤ p.start) := by
  by_cases hq : q.start = q.stop <;> by_cases hp : p.start = p.stop <;>
    simp [overlaps, isInsertion, hq, hp] <;> omega

theorem overlaps_comm (p q : Patch) : p.overlaps q = q.overlaps p := by
  rw [Bool.eq_iff_iff, ← not_iff_not, Bool.not_eq_true, Bool.not_eq_true, apart_iff, apart_iff]
  omega

end Patch

def insertedAt (ps : List Patch) (k : Nat) : Bytes :=
  (ps.filter (·.start == k)).flatMap Patch.text

def keptAt (origin : Bytes) (ps : List Patch) (k : Nat) : Bytes :=
  if ps.any (·.covers k) then [] else origin[k]?.toList

def cellAt (origin : Bytes) (ps : List Patch) (k : Nat) : Bytes :=
  insertedAt ps k ++ keptAt origin ps k

/-- All patches at once: place by place, what is put in there and then the byte itself. -/
def substitute (origin : Bytes) (ps : List Patch) : Bytes :=
  (List.range (origin.length + 1)).flatMap (cellAt origin ps)

def Spared (ps : List Patch) : Prop := ps.Pairwise fun q p => p.swallows q = false

inductive Taken (size : Nat) : List Patch → Prop
  | nil : Taken size []
  | snoc {ps : List Patch} {p : Patch} : Taken size ps → p.Fits size ps → Taken size (ps ++ [p])

instance (ps : List Patch) : Decidable (Spared ps) :=
  inferInstanceAs (Decidable (ps.Pairwise fun q p => p.swallows q = false))

section Place

variable {origin : Bytes} {ps : List Patch} {p : Patch}

theorem insertedAt_snoc (k : Nat) :
    insertedAt (ps ++ [p]) k = insertedAt ps k ++ if p.start = k then p.text else [] := by
  unfold insertedAt
  rw [List.filter_append, List.flatMap_append]
  by_cases here : p.start = k <;> simp [here]

theorem keptAt_snoc (k : Nat) :
    keptAt origin (ps ++ [p]) k = if p.covers k then [] else keptAt origin ps k := by
  unfold keptAt
  by_cases here : p.covers k <;> simp [here]

variable {k : Nat}

theorem keptAt_covered (fits : p.Fits origin.length ps) (here : p.covers k = true) :
    keptAt origin ps k = origin[k]?.toList ∧ (origin[k]?.toList).length = 1 := by
  rw [Patch.covers_iff] at here
  have inside := fits.inside
  have untouched : ps.any (·.covers k) = false := by
    rw [List.any_eq_false]
    intro q mem taken
    rw [Patch.covers_iff] at taken
    have := Patch.apart_iff.mp (fits.apart q mem)
    omega
  constructor
  · rw [keptAt, untouched, if_neg Bool.false_ne_true]
  · rw [List.getElem?_eq_getElem (by omega)]
    rfl

theorem insertedAt_eq_nil (none : ∀ q ∈ ps, q.start ≠ k) : insertedAt ps k = [] := by
  have : ps.filter (·.start == k) = [] := by
    rw [List.filter_eq_nil_iff]
    intro q mem
    simpa using none q mem
  rw [insertedAt, this, List.flatMap_nil]

theorem cellAt_length_snoc (fits : p.Fits origin.length ps) (k : Nat) :
    (cellAt origin (ps ++ [p]) k).length + (if p.covers k then 1 else 0) =
      (cellAt origin ps k).length + (if p.start = k then p.text.length else 0) := by
  unfold cellAt
  rw [insertedAt_snoc, keptAt_snoc]
  by_cases taken : p.covers k = true
  · obtain ⟨kept, one⟩ := keptAt_covered fits taken
    rw [if_pos taken, if_pos taken, kept, List.append_nil]
    simp only [List.length_append, apply_ite List.length, List.length_nil, one]
    omega
  · rw [if_neg taken, if_neg taken]
    split
    · simp only [List.length_append]
      omega
    · simp

theorem cellAt_snoc_of_outside (outside : k < p.start ∨ p.stop ≤ k) (away : p.start ≠ k) :
    cellAt origin (ps ++ [p]) k = cellAt origin ps k := by
  have uncovered : ¬p.covers k = true := by
    rw [Patch.covers_iff]
    omega
  rw [cellAt, cellAt, insertedAt_snoc, keptAt_snoc, if_neg away, if_neg uncovered, List.append_nil]

theorem cells_length_snoc (fits : p.Fits origin.length ps) (k : Nat) :
    ((List.range k).flatMap (cellAt origin (ps ++ [p]))).length + (min k p.stop - min k p.start) =
      ((List.range k).flatMap (cellAt origin ps)).length +
        (if p.start < k then p.text.length else 0) := by
  have ordered := fits.ordered
  induction k with
  | zero => simp
  | succ k ih =>
    have last := cellAt_length_snoc fits k
    simp only [List.range_succ, List.flatMap_append, List.flatMap_singleton, List.length_append]
    simp only [Patch.covers_iff] at last
    split at ih <;> split at last <;> split at last <;> split <;> omega

def aheadOf (origin : Bytes) (ps : List Patch) (k : Nat) : Bytes :=
  (List.range k).flatMap (cellAt origin ps) ++ insertedAt ps k

def moved (ps : List Patch) (k : Nat) : Int := ((ps.filter (·.stop ≤ k)).map Patch.growth).sum

theorem moved_snoc (k : Nat) :
    moved (ps ++ [p]) k = moved ps k + if p.stop ≤ k then p.growth else 0 := by
  unfold moved
  rw [List.filter_append, List.map_append, List.sum_append]
  by_cases before : p.stop ≤ k <;> simp [before]

theorem cells_nil (k : Nat) :
    (List.range k).flatMap (cellAt origin []) = origin.take k := by
  induction k with
  | zero => simp
  | succ k ih =>
    rw [List.range_succ, List.flatMap_append, ih, List.flatMap_singleton, List.take_add_one]
    rfl

theorem substitute_nil : substitute origin [] = origin := by
  rw [substitute, cells_nil, List.take_of_length_le (by omega)]

theorem aheadOf_length (taken : Taken origin.length ps) (le : k ≤ origin.length)
    (free : ∀ q ∈ ps, ¬q.covers k = true) : ((aheadOf origin ps k).length : Int) = k + moved ps k := by
  induction taken with
  | nil => simp [aheadOf, insertedAt, moved, cells_nil, le]
  | @snoc ps p taken fits ih =>
    have outside := free p (by simp)
    rw [Patch.covers_iff] at outside
    have counted := cells_length_snoc fits k
    have before := ih fun q mem => free q (by simp [mem])
    have ordered := fits.ordered
    rw [moved_snoc]
    simp only [aheadOf, insertedAt_snoc, List.length_append, Nat.cast_add, Patch.growth,
      apply_ite List.length, List.length_nil] at before ⊢
    split at counted <;> split <;> split <;> omega

def fromOn (origin : Bytes) (ps : List Patch) (k : Nat) : Bytes :=
  (List.range' k (origin.length + 1 - k)).flatMap (cellAt origin ps)

theorem substitute_eq (le : k ≤ origin.length + 1) :
    substitute origin ps = (List.range k).flatMap (cellAt origin ps) ++ fromOn origin ps k := by
  have whole := @List.range'_append_1 0 k (origin.length + 1 - k)
  rw [Nat.zero_add, Nat.add_sub_cancel' le] at whole
  rw [substitute, fromOn, List.range_eq_range', List.range_eq_range', ← whole, List.flatMap_append]

theorem fromOn_eq {m : Nat} (le : k + m ≤ origin.length + 1) : fromOn origin ps k =
      (List.range' k m).flatMap (cellAt origin ps) ++ fromOn origin ps (k + m) := by
  have rest : origin.length + 1 - k = m + (origin.length + 1 - (k + m)) := by omega
  rw [fromOn, fromOn, rest, ← List.range'_append_1, List.flatMap_append]

theorem cells_snoc_of_le (le : k ≤ p.start) : (List.range k).flatMap (cellAt origin (ps ++ [p])) =
      (List.range k).flatMap (cellAt origin ps) := by
  apply List.flatMap_congr
  intro j mem
  have := List.mem_range.mp mem
  exact cellAt_snoc_of_outside (by omega) (by omega)

theorem fromOn_snoc_of_le (le : p.stop ≤ k) (behind : p.start < k) :
    fromOn origin (ps ++ [p]) k = fromOn origin ps k := by
  apply List.flatMap_congr
  intro j mem
  have := (List.mem_range'_1.mp mem).1
  exact cellAt_snoc_of_outside (by omega) (by omega)

theorem taken_bounds {size : Nat} (taken : Taken size ps) {q : Patch} (mem : q ∈ ps) :
    q.start ≤ q.stop ∧ q.stop ≤ size := by
  induction taken with
  | nil => cases mem
  | snoc taken fits ih =>
    rcases List.mem_append.mp mem with old | new
    · exact ih old
    · rw [List.mem_singleton.mp new]
      exact ⟨fits.ordered, fits.inside⟩

theorem Taken.apart {size : Nat} (taken : Taken size ps) :
    ps.Pairwise fun p q => p.overlaps q = false := by
  induction taken with
  | nil => exact .nil
  | snoc taken fits ih =>
    rw [List.pairwise_append]
    refine ⟨ih, List.pairwise_singleton _ _, ?_⟩
    intro q mem r new
    rw [List.mem_singleton.mp new]
    exact fits.apart q mem

theorem insertedAt_covered (taken : Taken origin.length ps) (fits : p.Fits origin.length ps)
    (here : p.covers k = true) : insertedAt ps k = [] := by
  rw [Patch.covers_iff] at here
  apply insertedAt_eq_nil
  intro q mem same
  have bounds := taken_bounds taken mem
  have := Patch.apart_iff.mp (fits.apart q mem)
  omega

theorem region_before (taken : Taken origin.length ps) (fits : p.Fits origin.length ps) {m : Nat}
    (le : p.start + m ≤ p.stop) :
    (List.range' p.start m).flatMap (cellAt origin ps) = (origin.take (p.start + m)).drop p.start := by
  have inside := fits.inside
  induction m with
  | zero => simp
  | succ m ih =>
    have here : p.covers (p.start + m) = true := by
      rw [Patch.covers_iff]
      omega
    rw [List.range'_concat, List.flatMap_append, ih (by omega), List.flatMap_singleton, Nat.one_mul,
      cellAt, insertedAt_covered taken fits here, (keptAt_covered fits here).1, ← Nat.add_assoc,
      List.take_add_one, List.drop_append_of_le_length]
    · rfl
    · simp
      omega

theorem region_after (taken : Taken origin.length ps) (fits : p.Fits origin.length ps)
    (filled : p.start < p.stop) :
    (List.range' p.start (p.stop - p.start)).flatMap (cellAt origin (ps ++ [p])) = p.text := by
  have covered : p.covers p.start = true := by
    rw [Patch.covers_iff]
    omega
  have size : p.stop - p.start = (p.stop - p.start - 1) + 1 := by omega
  have rest : (List.range' (p.start + 1) (p.stop - p.start - 1)).flatMap (cellAt origin (ps ++ [p])) =
      [] := by
    rw [List.flatMap_eq_nil_iff]
    intro k mem
    have bounds := List.mem_range'_1.mp mem
    have here : p.covers k = true := by
      rw [Patch.covers_iff]
      omega
    rw [cellAt, insertedAt_snoc, keptAt_snoc, if_pos here, if_neg (by omega),
      insertedAt_covered taken fits here]
    rfl
  rw [size, List.range'_succ, List.flatMap_cons, rest, cellAt, insertedAt_snoc, keptAt_snoc,
    if_pos covered, if_pos rfl, insertedAt_covered taken fits covered]
  simp

theorem substitute_snoc (taken : Taken origin.length ps) (fits : p.Fits origin.length ps) :
    ∃ back, substitute origin ps =
        aheadOf origin ps p.start ++ ((origin.take p.stop).drop p.start ++ back) ∧
      substitute origin (ps ++ [p]) = aheadOf origin ps p.start ++ (p.text ++ back) := by
  have ordered := fits.ordered
  have inside := fits.inside
  rw [substitute_eq (k := p.start) (by omega), substitute_eq (k := p.start) (by omega),
    cells_snoc_of_le (Nat.le_refl _)]
  by_cases insertion : p.start = p.stop
  · refine ⟨keptAt origin ps p.start ++ fromOn origin ps (p.start + 1), ?_, ?_⟩
    · rw [fromOn_eq (m := 1) (by omega), aheadOf, ← insertion]
      simp [cellAt]
    · have uncovered : ¬p.covers p.start = true := by
        rw [Patch.covers_iff]
        omega
      rw [fromOn_eq (m := 1) (by omega), fromOn_snoc_of_le (by omega) (by omega), aheadOf]
      simp [cellAt, insertedAt_snoc, keptAt_snoc, uncovered]
  · have covered : p.covers p.start = true := by
      rw [Patch.covers_iff]
      omega
    have reach : p.start + (p.stop - p.start) = p.stop := by omega
    refine ⟨fromOn origin ps p.stop, ?_, ?_⟩
    · rw [fromOn_eq (m := p.stop - p.start) (by omega), region_before taken fits (by omega), aheadOf,
        insertedAt_covered taken fits covered, reach]
      simp
    · rw [fromOn_eq (m := p.stop - p.start) (by omega), region_after taken fits (by omega), reach,
        fromOn_snoc_of_le (Nat.le_refl _) (by omega), aheadOf, insertedAt_covered taken fits covered]
      simp

theorem substitute_length_snoc (taken : Taken origin.length ps) (fits : p.Fits origin.length ps) :
    ((substitute origin (ps ++ [p])).length : Int) = (substitute origin ps).length + p.growth := by
  obtain ⟨back, before, after⟩ := substitute_snoc taken fits
  have ordered := fits.ordered
  have inside := fits.inside
  rw [before, after]
  simp only [List.length_append, List.length_drop, List.length_take, Patch.growth]
  omega

/-- How much of what earlier patches put in the patch takes away again. -/
def swallowed (ps : List Patch) (p : Patch) : Nat :=
  ((ps.filter p.swallows).map (·.text.length)).sum

theorem moved_cons (q : Patch) (k : Nat) :
    moved (q :: ps) k = (if q.stop ≤ k then q.growth else 0) + moved ps k := by
  unfold moved
  by_cases before : q.stop ≤ k <;> simp [before]

theorem swallowed_cons (q : Patch) :
    swallowed (q :: ps) p = (if p.swallows q then q.text.length else 0) + swallowed ps p := by
  unfold swallowed
  by_cases taken : p.swallows q = true <;> simp [taken]

theorem growth_stop {q : Patch} (bounds : q.start ≤ q.stop) (ordered : p.start ≤ p.stop)
    (apart : q.overlaps p = false) :
    (if q.stop ≤ p.stop then q.growth else 0) =
      (if q.stop ≤ p.start then q.growth else 0) +
        ((if p.swallows q then q.text.length else 0 : Nat) : Int) := by
  have beside := Patch.apart_iff.mp apart
  by_cases taken : p.swallows q = true
  · have := Patch.swallows_iff.mp taken
    rw [if_pos (by omega), if_neg (by omega), if_pos taken, Patch.growth]
    omega
  · have empty : q.start = q.stop → q.start = p.stop → p.start ≠ p.stop → q.text.length = 0 := by
      intro insertion behind region
      rw [Patch.swallows_iff] at taken
      by_contra filled
      exact taken ⟨region, insertion, behind, by simpa using filled⟩
    rw [if_neg taken, Patch.growth]
    split <;> split <;> omega

theorem moved_stop (bounds : ∀ q ∈ ps, q.start ≤ q.stop) (ordered : p.start ≤ p.stop)
    (apart : ∀ q ∈ ps, q.overlaps p = false) :
    moved ps p.stop = moved ps p.start + swallowed ps p := by
  induction ps with
  | nil => rfl
  | cons q ps ih =>
    have rest := ih (fun r mem => bounds r (by simp [mem])) (fun r mem => apart r (by simp [mem]))
    have first := growth_stop (bounds q (by simp)) ordered (apart q (by simp))
    rw [moved_cons, moved_cons, swallowed_cons, first, rest]
    omega

theorem swallowed_eq_zero_iff : swallowed ps p = 0 ↔ ∀ q ∈ ps, p.swallows q = false := by
  induction ps with
  | nil => simp [swallowed]
  | cons q ps ih =>
    rw [swallowed_cons, Nat.add_eq_zero_iff, ih, List.forall_mem_cons]
    refine and_congr_left fun _ => ?_
    by_cases taken : p.swallows q = true
    · simpa [taken] using (Patch.swallows_iff.mp taken).2.2.2
    · simp [taken]

theorem spared_snoc : Spared (ps ++ [p]) ↔ Spared ps ∧ swallowed ps p = 0 := by
  rw [swallowed_eq_zero_iff, Spared, Spared, List.pairwise_append]
  simp

end Place

namespace Buffer

structure Holds (b : Buffer) (ps : List Patch) : Prop where
  taken : Taken b.origin.length ps
  accepted : b.accepted.Perm ps
  sorted : b.accepted.Pairwise (·.start ≤ ·.start)
  exact : Spared ps → b.working = substitute b.origin ps
  short : ¬Spared ps → b.working.length < (substitute b.origin ps).length

variable {b next : Buffer} {ps : List Patch} {p : Patch}

theorem takeWhile_sorted {qs : List Patch} (sorted : qs.Pairwise (·.start ≤ ·.start)) (k : Nat) :
    qs.takeWhile (·.start ≤ k) = qs.filter (·.start ≤ k) := by
  induction qs with
  | nil => rfl
  | cons q qs ih =>
    obtain ⟨first, rest⟩ := List.pairwise_cons.mp sorted
    by_cases le : q.start ≤ k
    · simp [le, ih rest]
    · have none : qs.filter (·.start ≤ k) = [] := by
        rw [List.filter_eq_nil_iff]
        intro r mem
        have := first r mem
        simp
        omega
      simp [le, none]

theorem shift_eq_moved (holds : b.Holds ps) (k : Nat) : shift b.accepted k = moved ps k := by
  have early : (b.accepted.filter (·.start ≤ k)).filter (·.stop ≤ k) =
      b.accepted.filter (·.stop ≤ k) := by
    rw [List.filter_filter]
    apply List.filter_congr
    intro q mem
    have := (taken_bounds holds.taken (holds.accepted.mem_iff.mp mem)).1
    simp
    omega
  rw [shift, takeWhile_sorted holds.sorted, early, moved]
  exact ((holds.accepted.filter _).map _).sum_eq

theorem insertPatch_perm (p : Patch) (qs : List Patch) : (insertPatch p qs).Perm (p :: qs) := by
  induction qs with
  | nil => exact .refl _
  | cons q qs ih =>
    unfold insertPatch
    split
    · exact (ih.cons q).trans (.swap p q qs)
    · exact .refl _

theorem insertPatch_sorted {qs : List Patch} (sorted : qs.Pairwise (·.start ≤ ·.start)) :
    (insertPatch p qs).Pairwise (·.start ≤ ·.start) := by
  induction qs with
  | nil => simp [insertPatch]
  | cons q qs ih =>
    obtain ⟨first, rest⟩ := List.pairwise_cons.mp sorted
    unfold insertPatch
    split
    · rename_i before
      refine List.pairwise_cons.mpr ⟨?_, ih rest⟩
      intro r mem
      rcases List.mem_cons.mp ((insertPatch_perm p qs).mem_iff.mp mem) with rfl | old
      · simp [Patch.before] at before
        omega
      · exact first r old
    · rename_i after
      refine List.pairwise_cons.mpr ⟨?_, sorted⟩
      intro r mem
      have le : p.start ≤ q.start := by
        simp [Patch.before] at after
        omega
      rcases List.mem_cons.mp mem with rfl | old
      · exact le
      · exact Nat.le_trans le (first r old)

theorem splice_holds (holds : b.Holds ps) (fits : p.Fits b.origin.length ps)
    (done : b.splice p = some next) : next.Holds (ps ++ [p]) ∧ next.origin = b.origin := by
  have ordered := fits.ordered
  have inside := fits.inside
  have free : ∀ q ∈ ps, ¬q.covers p.start = true := by
    intro q mem covered
    rw [Patch.covers_iff] at covered
    have := Patch.apart_iff.mp (fits.apart q mem)
    omega
  have start := aheadOf_length holds.taken (by omega) free
  have stop := moved_stop (fun q mem => (taken_bounds holds.taken mem).1) ordered fits.apart
  have grown := substitute_length_snoc holds.taken fits
  obtain ⟨back, before, after⟩ := substitute_snoc holds.taken fits
  simp only [splice, shift_eq_moved holds, stop] at done
  split at done
  · cases done
  · rename_i bounds
    cases done
    refine ⟨⟨.snoc holds.taken fits, ?_, insertPatch_sorted holds.sorted, ?_, ?_⟩, rfl⟩
    · have moved := (holds.accepted.cons p).trans (List.perm_append_singleton p ps).symm
      exact (insertPatch_perm p _).trans moved
    · intro spared
      obtain ⟨spared, none⟩ := spared_snoc.mp spared
      have first : ((p.start : Int) + moved ps p.start).toNat =
          (aheadOf b.origin ps p.start).length := by omega
      have last : ((p.stop : Int) + (moved ps p.start + (swallowed ps p : Nat))).toNat =
          (aheadOf b.origin ps p.start).length +
            ((b.origin.take p.stop).drop p.start).length := by
        simp only [List.length_drop, List.length_take]
        omega
      rw [first, last, holds.exact spared, before, after, List.take_left', ← List.drop_drop,
        List.drop_left', List.drop_left', List.append_assoc] <;> rfl
    · intro lost
      have shorter : b.working.length < (substitute b.origin ps).length ∨
          b.working.length = (substitute b.origin ps).length ∧ 0 < swallowed ps p := by
        by_cases spared : Spared ps
        · refine .inr ⟨by rw [holds.exact spared], ?_⟩
          have := mt (fun none => spared_snoc.mpr ⟨spared, none⟩) lost
          omega
        · exact .inl (holds.short spared)
      simp only [Patch.growth] at grown
      simp only [List.length_append, List.length_take, List.length_drop]
      omega

end Buffer

end Tenure
