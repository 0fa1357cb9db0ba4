import Mathlib.Data.List.Induction
import Mathlib.Data.List.TakeWhile
import Tenure.Proofs.Nesting

/- The sweep that turns entries into segments. What it has laid out, together with what is still
   open, credits every byte at every moment; closing an entry changes no credit, and opening one
   changes exactly the bytes that the entry covers. -/
namespace Tenure.SourceMap

/-- Segments, the last one first, that end at `place` or before it. None is empty, none overlaps
another, and neighbours that touch say different things. -/
def Laid : Nat → List Segment → Prop
  | _, [] => True
  | place, s :: ss =>
    s.start < s.stop ∧ s.stop ≤ place ∧ (∀ t ∈ ss.head?, t.stop = s.start → t.credit ≠ s.credit) ∧
      Laid s.start ss

def creditIn (segments : List Segment) (o : Nat) : Option Credit :=
  (segments.find? (·.contains o)).map Segment.credit

def Sweep.credit (s : Sweep) (o : Nat) : Option Credit :=
  if o < s.place then creditIn s.segments o
  else (s.pending.find? (o < ·.stop)).map Pending.credit

@[simp] theorem segment_contains_iff {s : Segment} {o : Nat} :
    s.contains o = true ↔ s.start ≤ o ∧ o < s.stop := by simp [Segment.contains]

variable {p : Pending} {segments : List Segment}

theorem extends_iff {s : Segment} {start : Nat} :
    extends_ s p start = true ↔ s.stop = start ∧ s.credit = p.credit := by
  simp only [extends_, Segment.credit, Pending.credit, Bool.and_eq_true, beq_iff_eq, Credit.mk.injEq]
  grind

theorem laid_mono {place later : Nat} (laid : Laid place segments)
    (le : place ≤ later) : Laid later segments := by
  cases segments with
  | nil => trivial
  | cons s ss => exact ⟨laid.1, Nat.le_trans laid.2.1 le, laid.2.2⟩

theorem creditIn_behind {place o : Nat} (laid : Laid place segments)
    (behind : place ≤ o) : creditIn segments o = none := by
  induction segments generalizing place with
  | nil => rfl
  | cons s ss ih =>
    obtain ⟨filled, inside, -, rest⟩ := laid
    have outside : s.contains o = false := by
      rw [Bool.eq_false_iff, ne_eq, segment_contains_iff]
      omega
    have tail := ih rest (by omega)
    simpa [creditIn, List.find?_cons, outside] using tail

theorem emit_laid {start stop : Nat}
    (laid : Laid start segments) : Laid (max start stop) (emit segments p start stop) := by
  unfold emit
  split
  · exact laid_mono laid (by omega)
  · cases segments with
    | nil => exact ⟨by dsimp only; omega, by dsimp only; omega, by simp, trivial⟩
    | cons last before =>
      obtain ⟨filled, inside, differs, rest⟩ := laid
      dsimp only
      split
      · rename_i grows
        have touch := (extends_iff.mp grows).1
        exact ⟨by dsimp only; omega, by dsimp only; omega, differs, rest⟩
      · rename_i fresh
        refine ⟨by dsimp only; omega, by dsimp only; omega, ?_, filled, inside, differs, rest⟩
        simp only [List.head?_cons, Option.mem_some_iff]
        rintro t rfl touch same
        exact fresh (extends_iff.mpr ⟨touch, same⟩)

theorem emit_credit {start stop : Nat} (laid : Laid start segments) (o : Nat) :
    creditIn (emit segments p start stop) o =
      if start ≤ o ∧ o < stop then some p.credit else creditIn segments o := by
  unfold emit
  split
  · rw [if_neg (by omega)]
  · cases segments with
    | nil =>
      by_cases within : start ≤ o ∧ o < stop
      · simp [creditIn, Segment.contains, Segment.credit, Pending.credit, within]
      · simp [creditIn, Segment.contains, within]
    | cons last before =>
      dsimp only
      split
      · -- The last segment grows: the new bytes and its own bytes say the same.
        rename_i grows
        obtain ⟨touch, same⟩ := extends_iff.mp grows
        have filled := laid.1
        by_cases within : start ≤ o ∧ o < stop
        · have inside : Segment.contains { last with stop } o = true := by
            simp only [segment_contains_iff]
            omega
          rw [if_pos within, creditIn, List.find?_cons, inside]
          exact congrArg some same
        · rw [if_neg within]
          have grown : Segment.contains { last with stop } o = last.contains o := by
            rw [Bool.eq_iff_iff, segment_contains_iff, segment_contains_iff]
            dsimp only
            omega
          rw [creditIn, creditIn, List.find?_cons, List.find?_cons, grown]
          split <;> rfl
      · by_cases within : start ≤ o ∧ o < stop
        · simp [creditIn, Segment.contains, Segment.credit, Pending.credit, within]
        · simp [creditIn, List.find?_cons, Segment.contains, within]

theorem close_pending (done : Pending → Bool) (segments : List Segment) (place : Nat)
    (pending : List Pending) :
    (close done segments place pending).pending = pending.dropWhile done := by
  induction pending generalizing segments place with
  | nil => rfl
  | cons p ps ih =>
    rw [close, List.dropWhile_cons]
    split
    · exact ih _ _
    · rfl

theorem close_place_le (limit : Nat) (segments : List Segment) {place : Nat}
    (pending : List Pending) (before : place ≤ limit) :
    (close (·.stop ≤ limit) segments place pending).place ≤ limit := by
  induction pending generalizing segments place with
  | nil => exact before
  | cons p ps ih =>
    rw [close]
    split
    · rename_i closed
      have := of_decide_eq_true closed
      exact ih _ (by omega)
    · exact before

theorem close_laid (done : Pending → Bool) {place : Nat}
    (pending : List Pending) (laid : Laid place segments) :
    Laid (close done segments place pending).place (close done segments place pending).segments := by
  induction pending generalizing segments place with
  | nil => exact laid
  | cons p ps ih =>
    rw [close]
    split
    · exact ih (emit_laid laid)
    · exact laid

theorem close_credit (done : Pending → Bool) {place : Nat}
    (pending : List Pending) (laid : Laid place segments) (o : Nat) :
    (close done segments place pending).credit o =
      Sweep.credit { segments, pending, place } o := by
  induction pending generalizing segments place with
  | nil => rfl
  | cons p ps ih =>
    rw [close]
    split
    · rw [ih (emit_laid laid)]
      simp only [Sweep.credit, emit_credit laid, List.find?_cons]
      by_cases early : o < place
      · rw [if_pos (by omega), if_neg (by omega), if_pos early]
      · by_cases inside : o < p.stop
        · rw [if_pos (by omega), if_pos (by omega), if_neg early]
          simp [inside]
        · rw [if_neg (by omega), if_neg early]
          simp [inside]
    · rfl

def parentOf (s : Sweep) (e : Entry) : Option Pending := s.pending.find? (e.start < ·.stop)

theorem dropWhile_head (pending : List Pending) (start : Nat) :
    (pending.dropWhile (·.stop ≤ start)).head? = pending.find? (start < ·.stop) := by
  induction pending with
  | nil => rfl
  | cons p ps ih =>
    by_cases closed : p.stop ≤ start
    · simpa [closed, Nat.not_lt.mpr closed] using ih
    · simp [closed, Nat.lt_of_not_le closed]

section Step

variable {s : Sweep} {e : Entry}

theorem step_pending :
    (step s e).pending = inherit e (parentOf s e) :: s.pending.dropWhile (·.stop ≤ e.start) := by
  simp only [step, close_pending, dropWhile_head, parentOf]

theorem step_place (reached : s.place ≤ e.start) : (step s e).place = e.start := by
  have := close_place_le e.start s.segments s.pending reached
  simp only [step]
  omega

theorem step_laid (reached : s.place ≤ e.start) (laid : Laid s.place s.segments) :
    Laid (step s e).place (step s e).segments := by
  rw [step_place reached]
  have kept := close_laid (·.stop ≤ e.start) s.pending laid
  have early := close_place_le e.start s.segments s.pending reached
  simp only [step]
  split
  · exact laid_mono kept early
  · exact laid_mono (emit_laid kept) (by omega)

theorem parentOf_credit (reached : s.place ≤ e.start) :
    (parentOf s e).map Pending.credit = s.credit e.start := by
  rw [Sweep.credit, if_neg (by omega), parentOf]

theorem step_credit (reached : s.place ≤ e.start) (laid : Laid s.place s.segments) (o : Nat) :
    (step s e).credit o =
      if e.start ≤ o ∧ o < (inherit e (parentOf s e)).stop then
        some (inherit e (parentOf s e)).credit
      else s.credit o := by
  have same := close_credit (·.stop ≤ e.start) s.pending laid o
  have kept := close_laid (·.stop ≤ e.start) s.pending laid
  have early := close_place_le e.start s.segments s.pending reached
  have head := dropWhile_head s.pending e.start
  have pending := close_pending (·.stop ≤ e.start) s.segments s.place s.pending
  rw [Sweep.credit, step_place reached, step_pending]
  rw [← same]
  simp only [step]
  generalize close (·.stop ≤ e.start) s.segments s.place s.pending = t at *
  rw [← pending] at head ⊢
  rw [← parentOf] at head
  rw [← head]
  simp only [Sweep.credit, List.find?_cons]
  generalize inherit e _ = q
  cases open_ : t.pending with
  | nil =>
    dsimp only
    by_cases before : o < e.start
    · rw [if_pos before, if_neg (by omega)]
      split
      · rfl
      · exact creditIn_behind kept (by omega)
    · rw [if_neg before, if_neg (by omega : ¬o < t.place)]
      by_cases within : o < q.stop
      · simp [within, Nat.le_of_not_lt before]
      · simp [within]
  | cons p ps =>
    have inside : e.start < p.stop := by
      rw [open_, List.head?_cons, parentOf] at head
      simpa using List.find?_some head.symm
    dsimp only
    rw [emit_credit kept]
    by_cases before : o < e.start
    · rw [if_pos before, if_neg (by omega : ¬(e.start ≤ o ∧ _))]
      by_cases laidOut : o < t.place
      · rw [if_neg (by omega), if_pos laidOut]
      · rw [if_pos (by omega), if_neg laidOut, List.find?_cons]
        simp [Nat.lt_trans before inside]
    · rw [if_neg before, if_neg (by omega : ¬o < t.place)]
      by_cases within : o < q.stop
      · simp [within, Nat.le_of_not_lt before]
      · simp [within]

end Step

theorem outerFirst_start_le {d e : Entry} (order : outerFirst d e = true) : d.start ≤ e.start := by
  rw [outerFirst_iff] at order
  omega

theorem inherit_credit {e : Entry} {parent : Option Pending} {es : List Entry}
    (known : parent.map Pending.credit = creditOf es) :
    some (inherit e parent).credit = creditOf (e :: es) := by
  cases es with
  | nil =>
    cases parent with
    | none => rfl
    | some p => simp [creditOf] at known
  | cons f fs =>
    cases parent with
    | none => simp [creditOf] at known
    | some p =>
      simp only [Option.map_some, creditOf, Option.some.injEq, Pending.credit, Credit.mk.injEq] at known
      obtain ⟨-, anchor, stmt, -⟩ := known
      have outward : stmtOf (e :: f :: fs) = if e.stmt.isZero then p.stmt else e.stmt := by
        rw [stmt, stmtOf]
        simp
      have outward' : anchorOf (e :: f :: fs) =
          if (if e.origin.isZero then p.anchor else e.origin).isZero then stmtOf (e :: f :: fs)
          else if e.origin.isZero then p.anchor else e.origin := by
        rw [anchor, anchorOf]
      simp only [inherit, Pending.credit, creditOf, outward', outward]

theorem foldl_keeps {P : List Entry → Sweep → Prop} {entries : List Entry}
    (sorted : entries.Pairwise (outerFirst · · = true)) (start : P [] {})
    (next : ∀ {done e s}, (∀ d ∈ done ++ [e], d ∈ entries) → (∀ d ∈ done, outerFirst d e = true) →
      s.place ≤ e.start → Laid s.place s.segments → P done s → P (done ++ [e]) (step s e)) :
    Laid (entries.foldl step {}).place (entries.foldl step {}).segments ∧
      P entries (entries.foldl step {}) := by
  have run : ∀ done rest, entries = done ++ rest →
      Laid (done.foldl step {}).place (done.foldl step {}).segments ∧
        (∀ e ∈ rest, (done.foldl step {}).place ≤ e.start) ∧ P done (done.foldl step {}) := by
    intro done
    induction done using List.reverseRecOn with
    | nil => exact fun _ _ => ⟨trivial, fun _ _ => Nat.zero_le _, start⟩
    | append_singleton done e ih =>
      intro rest split
      rw [List.append_assoc, List.singleton_append] at split
      obtain ⟨laid, reached, kept⟩ := ih (e :: rest) split
      have here := reached e List.mem_cons_self
      have order := sorted
      rw [split, List.pairwise_append, List.pairwise_cons] at order
      have inside : ∀ d ∈ done ++ [e], d ∈ entries := by
        rw [split]
        simp +contextual [or_imp]
      rw [List.foldl_append]
      refine ⟨step_laid here laid, ?_, next inside (fun d hd => order.2.2 d hd e (by simp)) here laid kept⟩
      intro f hf
      exact (step_place here).trans_le (outerFirst_start_le (order.2.1.1 f hf))
  have whole := run entries [] (by simp)
  exact ⟨whole.1, whole.2.2⟩

theorem foldl_laid {entries : List Entry} (sorted : entries.Pairwise (outerFirst · · = true)) :
    Laid (entries.foldl step {}).place (entries.foldl step {}).segments :=
  (foldl_keeps (P := fun _ _ => True) sorted trivial fun _ _ _ _ _ => trivial).1

theorem creditIn_sweep (entries : List Entry) (o : Nat) :
    creditIn (sweep entries).segments o = ((ordered entries).foldl step {}).credit o := by
  have open_ := foldl_laid (ordered_pairwise entries)
  have laid := close_laid (fun _ => true) ((ordered entries).foldl step {}).pending open_
  have closed := close_pending (fun _ => true) ((ordered entries).foldl step {}).segments
    ((ordered entries).foldl step {}).place ((ordered entries).foldl step {}).pending
  rw [sweep]
  refine Eq.trans ?_ (close_credit (fun _ => true) _ open_ o)
  rw [Sweep.credit]
  split
  · rfl
  · rw [creditIn_behind laid (by omega), closed, List.dropWhile_eq_nil_iff.mpr (by simp)]
    rfl

structure Swept (done : List Entry) (s : Sweep) : Prop where
  laid : Laid s.place s.segments
  reached : ∀ e, (∀ d ∈ done, outerFirst d e = true) → s.place ≤ e.start
  stops : ∀ p ∈ s.pending, ∃ d ∈ done, p.stop = d.stop
  credit : ∀ o, s.credit o = creditOf (done.filter (·.covers o)).reverse

theorem swept_start : Swept [] {} := by
  refine ⟨trivial, fun _ _ => Nat.zero_le _, by simp, ?_⟩
  intro o
  simp [Sweep.credit, creditOf]

section Swept

variable {done : List Entry} {s : Sweep} {e : Entry}

theorem inherit_stop (swept : Swept done s) (after : ∀ d ∈ done, outerFirst d e = true)
    (fits : ∀ d ∈ done, d.start < d.stop → e.start < e.stop → d.Fits e) :
    (inherit e (parentOf s e)).stop = e.stop := by
  cases found : parentOf s e with
  | none => rfl
  | some p =>
    have around : e.start < p.stop := by simpa using List.find?_some found
    obtain ⟨d, hd, stop⟩ := swept.stops p (List.mem_of_find?_eq_some found)
    have order := outerFirst_iff.mp (after d hd)
    have filled : d.start < d.stop := by omega
    dsimp only [inherit]
    by_cases empty : e.stop ≤ e.start
    · omega
    · have nested := fits d hd filled (by omega)
      unfold Entry.Fits at nested
      omega

theorem covers_start_iff {d e : Entry} {o : Nat} (order : outerFirst d e = true)
    (fits : d.start < d.stop → d.Fits e) (covered : e.covers o = true) :
    d.covers e.start = d.covers o := by
  rw [outerFirst_iff] at order
  have within := Entry.covers_iff.mp covered
  rw [Bool.eq_iff_iff, Entry.covers_iff, Entry.covers_iff]
  constructor
  · rintro ⟨-, inside⟩
    have nested := fits (by omega)
    unfold Entry.Fits at nested
    omega
  · omega

theorem swept_step (swept : Swept done s) (after : ∀ d ∈ done, outerFirst d e = true)
    (fits : ∀ d ∈ done, d.start < d.stop → e.start < e.stop → d.Fits e) :
    Swept (done ++ [e]) (step s e) := by
  have reached := swept.reached e after
  have stop := inherit_stop swept after fits
  refine ⟨step_laid reached swept.laid, ?_, ?_, ?_⟩
  · intro f before
    rw [step_place reached]
    exact outerFirst_start_le (before e (by simp))
  · intro p hp
    rw [step_pending, List.mem_cons] at hp
    rcases hp with rfl | old
    · exact ⟨e, by simp, stop⟩
    · obtain ⟨d, hd, eq⟩ := swept.stops p ((List.dropWhile_sublist _).subset old)
      exact ⟨d, by simp [hd], eq⟩
  · intro o
    rw [step_credit reached swept.laid, stop, List.filter_append, List.reverse_append]
    by_cases covered : e.covers o = true
    · have same : done.filter (·.covers e.start) = done.filter (·.covers o) := by
        apply List.filter_congr
        intro d hd
        have filled := Entry.covers_iff.mp covered
        exact covers_start_iff (after d hd) (fun hd' => fits d hd hd' (by omega)) covered
      have known := parentOf_credit reached
      rw [swept.credit, same] at known
      rw [if_pos (Entry.covers_iff.mp covered), inherit_credit known]
      simp [covered]
    · rw [if_neg (by rwa [Entry.covers_iff] at covered), swept.credit]
      simp [covered]

end Swept

theorem sweep_credit {entries : List Entry} (nested : WellNested entries) (o : Nat) :
    creditIn (sweep entries).segments o = creditOf (around entries o) := by
  have swept := (foldl_keeps (ordered_pairwise entries) swept_start fun inside after _ _ swept =>
    swept_step swept after fun d hd => nested d (mem_ordered.mp (inside d (by simp [hd]))).1 _
      (mem_ordered.mp (inside _ (by simp))).1).2
  rw [creditIn_sweep, around_eq_ordered nested, swept.credit]

end Tenure.SourceMap
