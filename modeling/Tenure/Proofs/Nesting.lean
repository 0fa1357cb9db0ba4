import Mathlib.Data.List.Pairwise
import Tenure.SourceMap.Build

/- Which source a byte is credited to, said byte by byte: the entries around it, innermost first,
   and what they hand down to each other. -/
namespace Tenure

namespace Entry

def covers (e : Entry) (o : Nat) : Bool := e.start ≤ o && o < e.stop

def length (e : Entry) : Nat := e.stop - e.start

def Fits (d e : Entry) : Prop :=
  d.stop ≤ e.start ∨ e.stop ≤ d.start ∨ (d.start ≤ e.start ∧ e.stop ≤ d.stop) ∨
    (e.start ≤ d.start ∧ d.stop ≤ e.stop)

instance (d e : Entry) : Decidable (d.Fits e) := inferInstanceAs (Decidable (_ ∨ _))

@[simp] theorem covers_iff {e : Entry} {o : Nat} :
    e.covers o = true ↔ e.start ≤ o ∧ o < e.stop := by simp [covers]

end Entry

def WellNested (entries : List Entry) : Prop :=
  ∀ d ∈ entries, ∀ e ∈ entries, d.start < d.stop → e.start < e.stop → d.Fits e

instance (entries : List Entry) : Decidable (WellNested entries) :=
  inferInstanceAs (Decidable (∀ d ∈ entries, ∀ e ∈ entries, _))

structure Credit where
  origin : Range
  anchor : Range
  stmt : Range
  synthetic : Bool
  deriving DecidableEq, Repr

def Segment.credit (s : Segment) : Credit := ⟨s.origin, s.anchor, s.stmt, s.synthetic⟩

namespace SourceMap

def Pending.credit (p : Pending) : Credit := ⟨p.origin, p.anchor, p.stmt, p.synthetic⟩

/-- The entries that cover a byte, the smallest first, and of equal ranges the first one first. -/
def around (entries : List Entry) (o : Nat) : List Entry :=
  (entries.filter (·.covers o)).mergeSort fun d e => d.length ≤ e.length

def stmtOf : List Entry → Range
  | [] => Range.zero
  | [e] => e.stmt
  | e :: es => if e.stmt.isZero then stmtOf es else e.stmt

theorem stmtOf_known {e : Entry} {es : List Entry} (known : e.stmt.isZero = false) :
    stmtOf (e :: es) = e.stmt := by
  cases es with
  | nil => rfl
  | cons f fs => simp [stmtOf, known]

/-- The first origin that is known, going outwards. An entry that finds none takes its statement. -/
def anchorOf : List Entry → Range
  | [] => Range.zero
  | e :: es =>
    let found := if e.origin.isZero then anchorOf es else e.origin
    if found.isZero then stmtOf (e :: es) else found

def creditOf : List Entry → Option Credit
  | [] => none
  | e :: es => some ⟨e.origin, anchorOf (e :: es), stmtOf (e :: es), e.synthetic⟩

section Order

variable {α : Type}

theorem filter_mergeSort_of_ordered {le : α → α → Bool} {p : α → Bool}
    (trans : ∀ a b c, le a b → le b c → le a c) (total : ∀ a b, le a b || le b a)
    (l : List α) (ordered : (l.filter p).Pairwise (le · ·)) :
    (l.mergeSort le).filter p = l.filter p := by
  have kept : (l.filter p).Sublist (l.mergeSort le) :=
    List.sublist_mergeSort trans total ordered List.filter_sublist
  have inside : (l.filter p).Sublist ((l.mergeSort le).filter p) := by simpa using kept.filter p
  have same : (l.filter p).length = ((l.mergeSort le).filter p).length :=
    ((List.mergeSort_perm l le).filter p).length_eq.symm
  exact (inside.eq_of_length same).symm

theorem mem_of_key_parts (key : α → Nat) {as bs : List α}
    (parts : ∀ k, as.filter (key · == k) = bs.filter (key · == k)) {x : α} (hx : x ∈ as) :
    x ∈ bs := by
  have kept : x ∈ as.filter (key · == key x) := List.mem_filter.mpr ⟨hx, by simp⟩
  rw [parts] at kept
  exact (List.mem_filter.mp kept).1

theorem eq_of_key_parts (key : α → Nat) {as bs : List α}
    (sortedA : as.Pairwise (key · ≤ key ·)) (sortedB : bs.Pairwise (key · ≤ key ·))
    (parts : ∀ k, as.filter (key · == k) = bs.filter (key · == k)) : as = bs := by
  induction as generalizing bs with
  | nil =>
    cases bs with
    | nil => rfl
    | cons b bs => simpa using mem_of_key_parts key (fun k => (parts k).symm) (List.mem_cons_self)
  | cons a as ih =>
    have ha : a ∈ bs := mem_of_key_parts key parts List.mem_cons_self
    cases bs with
    | nil => simp at ha
    | cons b bs =>
      have hb : b ∈ a :: as := mem_of_key_parts key (fun k => (parts k).symm) List.mem_cons_self
      rw [List.pairwise_cons] at sortedA sortedB
      -- Both heads have the least key, and the part of that key starts with them.
      have ab : key a ≤ key b := by
        rcases List.mem_cons.mp hb with rfl | mem
        · exact Nat.le_refl _
        · exact sortedA.1 b mem
      have ba : key b ≤ key a := by
        rcases List.mem_cons.mp ha with rfl | mem
        · exact Nat.le_refl _
        · exact sortedB.1 a mem
      have keys : key b = key a := by omega
      have head := parts (key a)
      simp only [List.filter_cons, beq_self_eq_true, ↓reduceIte, keys, List.cons.injEq] at head
      obtain ⟨rfl, -⟩ := head
      have tails : ∀ k, as.filter (key · == k) = bs.filter (key · == k) := by
        intro k
        have := parts k
        simp only [List.filter_cons] at this
        split at this
        · exact (List.cons.inj this).2
        · exact this
      rw [ih sortedA.2 sortedB.2 tails]

end Order

theorem shorter_trans (c d e : Entry) (h : decide (c.length ≤ d.length) = true)
    (h' : decide (d.length ≤ e.length) = true) : decide (c.length ≤ e.length) = true := by
  simp only [decide_eq_true_eq] at *
  omega

theorem shorter_total (d e : Entry) :
    (decide (d.length ≤ e.length) || decide (e.length ≤ d.length)) = true := by
  simp only [Bool.or_eq_true, decide_eq_true_eq]
  omega

theorem outerFirst_iff {d e : Entry} :
    outerFirst d e = true ↔ d.start < e.start ∨ d.start = e.start ∧ e.stop ≤ d.stop := by
  unfold outerFirst
  split
  · simp only [decide_eq_true_eq]
    omega
  · simp only [decide_eq_true_eq]
    omega

theorem outerFirst_trans (c d e : Entry) (h : outerFirst c d = true) (h' : outerFirst d e = true) :
    outerFirst c e = true := by
  rw [outerFirst_iff] at *
  omega

theorem outerFirst_total (d e : Entry) : (outerFirst d e || outerFirst e d) = true := by
  rw [Bool.or_eq_true, outerFirst_iff, outerFirst_iff]
  omega

theorem ordered_pairwise (entries : List Entry) :
    (ordered entries).Pairwise (outerFirst · · = true) :=
  List.pairwise_mergeSort outerFirst_trans outerFirst_total _

theorem mem_ordered {entries : List Entry} {e : Entry} :
    e ∈ ordered entries ↔ e ∈ entries ∧ e.start ≠ e.stop := by
  simp [ordered]

theorem length_le_of_outerFirst {d e : Entry} {o : Nat} (fits : d.Fits e)
    (hd : d.covers o = true) (he : e.covers o = true) (order : outerFirst d e = true) :
    e.length ≤ d.length := by
  rw [Entry.covers_iff] at hd he
  rw [outerFirst_iff] at order
  unfold Entry.Fits at fits
  unfold Entry.length
  omega

section Around

variable {entries : List Entry} (nested : WellNested entries) (o : Nat)

include nested

theorem covering_fit {d e : Entry} (hd : d ∈ entries) (he : e ∈ entries) (cd : d.covers o = true)
    (ce : e.covers o = true) : d.Fits e := by
  rw [Entry.covers_iff] at cd ce
  exact nested d hd e he (by omega) (by omega)

theorem ordered_part (k : Nat) :
    ((ordered entries).filter (·.covers o)).filter (·.length == k) =
      ((entries.filter (·.covers o)).filter (·.length == k)).reverse := by
  rw [List.filter_filter, ordered, filter_mergeSort_of_ordered outerFirst_trans outerFirst_total]
  · rw [List.filter_reverse, List.filter_filter, List.filter_filter]
    congr 1
    apply List.filter_congr
    intro e _
    by_cases covered : e.covers o = true
    · have := Entry.covers_iff.mp covered
      simp only [covered, Bool.and_true, bne_iff_ne, ne_eq, Bool.and_eq_left_iff_imp]
      omega
    · simp [covered]
  · refine List.pairwise_of_forall_mem_list ?_
    intro d hd e he
    simp only [List.mem_filter, List.mem_reverse, Bool.and_eq_true, beq_iff_eq] at hd he
    obtain ⟨⟨memberD, -⟩, lengthD, coversD⟩ := hd
    obtain ⟨⟨memberE, -⟩, lengthE, coversE⟩ := he
    have fits := covering_fit nested o memberD memberE coversD coversE
    rw [Entry.covers_iff] at coversD coversE
    rw [outerFirst_iff]
    unfold Entry.Fits at fits
    unfold Entry.length at lengthD lengthE
    omega

theorem around_eq_ordered :
    around entries o = ((ordered entries).filter (·.covers o)).reverse := by
  apply eq_of_key_parts Entry.length
  · have sorted := List.pairwise_mergeSort shorter_trans shorter_total
      (entries.filter (·.covers o))
    simpa [around] using sorted
  · rw [List.pairwise_reverse]
    refine ((ordered_pairwise entries).filter _).imp_of_mem ?_
    intro d e hd he order
    simp only [List.mem_filter, mem_ordered] at hd he
    exact length_le_of_outerFirst (covering_fit nested o hd.1.1 he.1.1 hd.2 he.2) hd.2 he.2 order
  · intro k
    have left : (around entries o).filter (·.length == k) =
        (entries.filter (·.covers o)).filter (·.length == k) := by
      refine filter_mergeSort_of_ordered shorter_trans shorter_total _ ?_
      refine List.pairwise_of_forall_mem_list ?_
      intro d hd e he
      simp only [List.mem_filter, beq_iff_eq] at hd he
      simp [hd.2, he.2]
    rw [left, List.filter_reverse, ordered_part nested, List.reverse_reverse]

end Around

end SourceMap

end Tenure
