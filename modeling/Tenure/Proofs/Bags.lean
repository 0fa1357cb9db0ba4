import Tenure.Diagnostic.Bag

/- Bags of findings. A bag with a limit keeps what comes first, and of findings with one place and one
   code the first is enough. The others are kept out on the way into a bag, or dropped once all are in
   it: without a limit both leave the same, under a limit what is dropped has taken the room of others. -/
namespace Tenure

def fitting (limit : Int) (ds : List Diagnostic) : List Diagnostic :=
  if 0 < limit then ds.take limit.toNat else ds

variable {ds : List Diagnostic}

theorem mem_of_mem_fitting {limit : Int} {d : Diagnostic}
    (mem : d ∈ fitting limit ds) : d ∈ ds := by
  unfold fitting at mem
  split at mem
  · exact List.mem_of_mem_take mem
  · exact mem

theorem fitting_of_le {limit : Int} (room : limit ≤ 0 ∨ ds.length ≤ limit) :
    fitting limit ds = ds := by
  unfold fitting
  split
  · exact List.take_of_length_le (by omega)
  · rfl

theorem fitting_ne_nil (limit : Int) (some : ds ≠ []) : fitting limit ds ≠ [] := by
  unfold fitting
  split
  · rw [ne_eq, List.take_eq_nil_iff]
    rintro (none | none)
    · omega
    · exact some none
  · exact some

namespace Bag

def Sized (b : Bag) : Prop := 0 < b.limit → b.items.length ≤ b.limit

theorem sized_empty (limit : Int) : ({ limit } : Bag).Sized := fun limited => Int.le_of_lt limited

theorem addAll_items {b : Bag} (sized : b.Sized) (ds : List Diagnostic) :
    (b.addAll ds).items = fitting b.limit (b.items ++ ds) := by
  induction ds generalizing b with
  | nil =>
    rw [List.append_nil, fitting_of_le]
    · rfl
    · by_cases limited : 0 < b.limit
      · exact .inr (sized limited)
      · exact .inl (by omega)
  | cons d ds ih =>
    rw [addAll, List.foldl_cons]
    by_cases full : b.isFull = true
    · have same : b.add d = b := by rw [add, if_pos full]
      have rest := ih sized
      rw [addAll] at rest
      simp only [isFull, Bool.and_eq_true, decide_eq_true_eq] at full
      have exact : b.limit.toNat = b.items.length := by
        have := sized full.1
        omega
      rw [same, rest, fitting, fitting, if_pos full.1, if_pos full.1, exact, List.take_left',
        List.take_left'] <;> rfl
    · have more : b.add d = { b with items := b.items ++ [d] } := by rw [add, if_neg full]
      have still : (b.add d).Sized := by
        rw [more]
        intro limited
        have := sized limited
        simp only [isFull, Bool.and_eq_true, decide_eq_true_eq, not_and] at full
        have := full limited
        simp only [List.length_append, List.length_singleton]
        omega
      have rest := ih still
      rw [addAll] at rest
      rw [rest, more]
      simp

theorem mem_sort {b : Bag} {d : Diagnostic} : d ∈ b.sort.items ↔ d ∈ b.items :=
  (List.mergeSort_perm _ _).mem_iff

theorem hasErrors_iff {b : Bag} : b.hasErrors = true ↔ ∃ d ∈ b.items, d.isError = true := by
  simp [hasErrors]

end Bag

section Firsts

variable {α κ : Type} [DecidableEq κ] {key : α → κ} {seen : List κ} {a : α} {as : List α}

def firsts (key : α → κ) (seen : List κ) : List α → List α
  | [] => []
  | a :: as => if key a ∈ seen then firsts key seen as else a :: firsts key (key a :: seen) as

theorem firsts_seen (told : key a ∈ seen) : firsts key seen (a :: as) = firsts key seen as := if_pos told

theorem firsts_new (new : key a ∉ seen) :
    firsts key seen (a :: as) = a :: firsts key (key a :: seen) as := if_neg new

theorem firsts_sublist (key : α → κ) (seen : List κ) (as : List α) :
    (firsts key seen as).Sublist as := by
  induction as generalizing seen with
  | nil => exact List.Sublist.slnil
  | cons a as ih =>
    unfold firsts
    split
    · exact (ih seen).cons a
    · exact (ih _).cons_cons a

theorem firsts_idem (key : α → κ) (seen : List κ) (as : List α) :
    firsts key seen (firsts key seen as) = firsts key seen as := by
  induction as generalizing seen with
  | nil => rfl
  | cons a as ih =>
    by_cases told : key a ∈ seen
    · rw [firsts_seen told, ih]
    · rw [firsts_new told, firsts_new told, ih]

theorem firsts_stand_in (key : α → κ) {R : α → α → Prop} (ordered : as.Pairwise R) (mem : a ∈ as)
    (new : key a ∉ seen) : ∃ b ∈ firsts key seen as, key b = key a ∧ (b = a ∨ R b a) := by
  induction as generalizing seen with
  | nil => cases mem
  | cons c as ih =>
    obtain ⟨before, rest⟩ := List.pairwise_cons.mp ordered
    by_cases told : key c ∈ seen
    · have later : a ∈ as := (List.mem_cons.mp mem).resolve_left fun own => new (own ▸ told)
      rw [firsts_seen told]
      exact ih rest later new
    · rw [firsts_new told]
      by_cases same : key c = key a
      · exact ⟨c, List.mem_cons_self, same, (List.mem_cons.mp mem).imp Eq.symm (before a)⟩
      · have later : a ∈ as := (List.mem_cons.mp mem).resolve_left fun own => same (own ▸ rfl)
        obtain ⟨b, first, found⟩ := ih rest later (List.not_mem_cons_of_ne_of_not_mem (Ne.symm same) new)
        exact ⟨b, List.mem_cons_of_mem _ first, found⟩

/-- Behind `earlier`, when the keys there are the ones seen, the firsts are what nothing before them is
the same as. -/
theorem firsts_leading {same : α → α → Bool} (same_iff : ∀ e a, same e a = true ↔ key e = key a)
    (earlier later : List α) (noted : ∀ k, k ∈ seen ↔ k ∈ earlier.map key) :
    firsts key seen later = ((later.zipIdx earlier.length).filter fun p =>
      !((earlier ++ later).take p.2).any (same · p.1)).map (·.1) := by
  induction later generalizing earlier seen with
  | nil => rfl
  | cons a later ih =>
    have said : earlier.any (same · a) = true ↔ key a ∈ seen := by
      simp only [noted, List.any_eq_true, same_iff, List.mem_map]
    have rest {seen : List κ} (noted : ∀ k, k ∈ seen ↔ k ∈ (earlier ++ [a]).map key) := ih _ noted
    simp only [List.length_append, List.length_singleton, List.append_assoc, List.singleton_append]
      at rest
    rw [List.zipIdx_cons, List.filter_cons, List.take_left' rfl]
    by_cases told : key a ∈ seen
    · rw [firsts_seen told, said.mpr told, rest]
      · rfl
      · intro k
        rw [List.map_append, List.mem_append, ← noted, or_iff_left_of_imp]
        intro own
        rw [List.mem_singleton.mp own]
        exact told
    · rw [firsts_new told, Bool.eq_false_iff.mpr fun known => told (said.mp known), rest]
      · rfl
      · intro k
        rw [List.map_append, List.mem_append, ← noted, List.mem_cons, or_comm]
        exact or_congr_right List.mem_singleton.symm

theorem firsts_count {k : κ} {has : α → Bool} (has_iff : ∀ a, has a = true ↔ key a = k)
    (seen : List κ) (as : List α) :
    (firsts key seen as).countP has = if k ∈ seen then 0 else min 1 (as.countP has) := by
  induction as generalizing seen with
  | nil => simp [firsts]
  | cons a as ih =>
    by_cases told : key a ∈ seen
    · rw [firsts_seen told, ih]
      split
      · rfl
      · rename_i other
        rw [List.countP_cons_of_neg]
        intro own
        exact other ((has_iff a).mp own ▸ told)
    · rw [firsts_new told]
      by_cases own : has a = true
      · rw [List.countP_cons_of_pos own, List.countP_cons_of_pos own, ih, ← (has_iff a).mp own,
          if_neg told, if_pos List.mem_cons_self]
        omega
      · have other : k ≠ key a := fun same => own ((has_iff a).mpr same.symm)
        rw [List.countP_cons_of_neg own, List.countP_cons_of_neg own, ih]
        simp only [List.mem_cons, other, false_or]

end Firsts

theorem firstOfEach_eq (seen : List (Code × Range)) (ds : List Diagnostic) :
    firstOfEach seen ds = firsts Diagnostic.key seen ds := by
  induction ds generalizing seen with
  | nil => rfl
  | cons d ds ih =>
    by_cases told : d.key ∈ seen
    · rw [firstOfEach, if_pos (List.contains_iff_mem.mpr told), firsts_seen told, ih]
    · rw [firstOfEach, if_neg (told ∘ List.contains_iff_mem.mp), firsts_new told, ih]

def DedupReporter.reportAll (r : DedupReporter) (b : Bag) (ds : List Diagnostic) :
    DedupReporter × Bag :=
  ds.foldl (fun s d => s.1.report s.2 d) (r, b)

theorem DedupReporter.reportAll_bag (r : DedupReporter) (b : Bag) (ds : List Diagnostic) :
    (r.reportAll b ds).2 = b.addAll (firstOfEach r.seen ds) := by
  induction ds generalizing r b with
  | nil => rfl
  | cons d ds ih =>
    have step : r.reportAll b (d :: ds) = (r.report b d).1.reportAll (r.report b d).2 ds := rfl
    rw [step, ih, firstOfEach, report]
    split <;> rfl

def Diagnostic.tells (place : Range) (code : Code) (d : Diagnostic) : Bool :=
  d.primary = place ∧ d.code = code

theorem Diagnostic.tells_iff {place : Range} {code : Code} {d : Diagnostic} :
    d.tells place code = true ↔ d.key = (code, place) := by
  simp only [tells, key, decide_eq_true_eq, Prod.mk.injEq]
  exact And.comm

def leading (ds : List Diagnostic) : List Diagnostic :=
  (ds.zipIdx.filter fun p => !(ds.take p.2).any (·.tells p.1.primary p.1.code)).map (·.1)

/-- Keeping repeats out and dropping them afterwards agree on bags without a limit: the first finding
of every place and code is left, in the order of arrival, and no other. Dropping twice is dropping once. -/
theorem repeats_dropped_alike {live late : Int} (unlimited : live ≤ 0 ∧ late ≤ 0)
    (ds : List Diagnostic) :
    (DedupReporter.reportAll {} { limit := live } ds).2.items =
        (Bag.addAll { limit := late } ds).dedup.items ∧
      (Bag.addAll { limit := late } ds).dedup.items = leading ds ∧
      (∀ place code, (Bag.addAll { limit := late } ds).dedup.items.countP (·.tells place code) =
        min 1 (ds.countP (·.tells place code))) ∧
      ∀ b : Bag, b.dedup.dedup = b.dedup := by
  have added {limit : Int} (none : limit ≤ 0) (ds : List Diagnostic) :
      (Bag.addAll { limit } ds).items = ds := by
    rw [Bag.addAll_items (Bag.sized_empty limit), fitting_of_le (.inl none)]
    rfl
  have dropped : (Bag.addAll { limit := late } ds).dedup.items = firstOfEach [] ds := by
    rw [Bag.dedup, added unlimited.2]
  rw [DedupReporter.reportAll_bag, added unlimited.1, dropped, firstOfEach_eq]
  refine ⟨rfl, ?_, ?_, ?_⟩
  · have alike (e d : Diagnostic) : e.tells d.primary d.code = true ↔ e.key = d.key :=
      Diagnostic.tells_iff
    exact firsts_leading alike [] ds fun _ => Iff.rfl
  · intro place code
    rw [firsts_count fun _ => Diagnostic.tells_iff, if_neg List.not_mem_nil]
  · intro b
    rw [Bag.dedup, Bag.dedup, firstOfEach_eq, firstOfEach_eq, firsts_idem]

def echoes : List Diagnostic :=
  [{ code := .immutableAssign, primary := .of 0 2 5 2 6, message := "cannot modify x" },
   { code := .immutableAssign, primary := .of 0 2 5 2 6, message := "x is immutable" },
   { code := .annotationConflict, primary := .of 0 2 5 2 6, message := "x is declared owned" },
   { code := .immutableAssign, primary := .of 0 3 1 3 2, message := "cannot modify x" }]

theorem echoes_dropped_alike : ((-1 : Int) ≤ 0 ∧ (0 : Int) ≤ 0) ∧
    (DedupReporter.reportAll {} { limit := -1 } echoes).2.items = (Bag.addAll {} echoes).dedup.items ∧
    (Bag.addAll {} echoes).dedup.items = echoes.eraseIdx 1 := by
  have alike := @repeats_dropped_alike (-1) 0 (by decide) echoes
  exact ⟨by decide, alike.1, alike.2.1.trans (by decide +kernel)⟩

-- The repeat is in the bag before it is dropped, so there is no room for the other code.
example : (DedupReporter.reportAll {} { limit := 2 } echoes).2.items ≠
    (Bag.addAll { limit := 2 } echoes).dedup.items := by decide +kernel

end Tenure
