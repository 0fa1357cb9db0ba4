import Tenure.Proofs.Findings
import Tenure.Proofs.Nesting

/- What is told of the records of a build. A record is left out when one before it says the same: for
   records that the catalog knows this goes by place and code, for the others by the record itself.
   The limit cuts what is left in the order of its arrival, and only then is it sorted. -/
namespace Tenure

section Order

theorem Range.before_iff {r s : Range} :
    r.before s = true ↔ r.file < s.file ∨ r.file = s.file ∧
      (r.start.less s.start = true ∨ r.start = s.start ∧ r.stop.less s.stop = true) := by
  unfold Range.before
  by_cases file : r.file = s.file
  · by_cases start : r.start = s.start
    · simp [file, start, Pos.less_iff]
    · simp [file, start]
  · simp [file]

theorem Pos.less_trans {p q t : Pos} (first : p.less q = true) (second : q.less t = true) :
    p.less t = true := by
  rw [Pos.less_iff] at *
  omega

theorem Pos.less_irrefl (p : Pos) : ¬p.less p = true := by
  rw [Pos.less_iff]
  omega

theorem Pos.less_or_eq_or_less (p q : Pos) : p.less q = true ∨ p = q ∨ q.less p = true := by
  obtain ⟨line, col⟩ := p
  obtain ⟨line', col'⟩ := q
  simp only [Pos.less_iff, Pos.mk.injEq]
  omega

theorem Range.before_trans {r s t : Range} (first : r.before s = true) (second : s.before t = true) :
    r.before t = true := by
  rw [Range.before_iff] at *
  rcases first with file | ⟨file, start | ⟨start, stop⟩⟩
  · left
    omega
  · rcases second with file' | ⟨file', start' | ⟨start', -⟩⟩
    · left
      omega
    · exact .inr ⟨by omega, .inl (Pos.less_trans start start')⟩
    · exact .inr ⟨by omega, .inl (start' ▸ start)⟩
  · rcases second with file' | ⟨file', start' | ⟨start', stop'⟩⟩
    · left
      omega
    · exact .inr ⟨by omega, .inl (start ▸ start')⟩
    · exact .inr ⟨by omega, .inr ⟨start.trans start', Pos.less_trans stop stop'⟩⟩

theorem Range.before_irrefl (r : Range) : ¬r.before r = true := by
  rw [Range.before_iff]
  rintro (file | ⟨-, start | ⟨-, stop⟩⟩)
  · omega
  · exact Pos.less_irrefl _ start
  · exact Pos.less_irrefl _ stop

theorem Range.before_or_eq_or_before (r s : Range) :
    r.before s = true ∨ r = s ∨ s.before r = true := by
  obtain ⟨file, start, stop⟩ := r
  obtain ⟨file', start', stop'⟩ := s
  simp only [Range.before_iff, Range.mk.injEq]
  rcases Nat.lt_trichotomy file file' with less | rfl | less
  · exact .inl (.inl less)
  · rcases Pos.less_or_eq_or_less start start' with less | rfl | less
    · exact .inl (.inr ⟨rfl, .inl less⟩)
    · rcases Pos.less_or_eq_or_less stop stop' with less | rfl | less
      · exact .inl (.inr ⟨rfl, .inr ⟨rfl, less⟩⟩)
      · exact .inr (.inl ⟨rfl, rfl, rfl⟩)
      · exact .inr (.inr (.inr ⟨rfl, .inr ⟨rfl, less⟩⟩))
    · exact .inr (.inr (.inr ⟨rfl, .inl less⟩))
  · exact .inr (.inr (.inl less))

end Order

namespace Diagnostic

def Precedes (d e : Diagnostic) : Prop :=
  d.primary.before e.primary = true ∨ d.primary = e.primary ∧
    (e.severity.level < d.severity.level ∨
      d.severity = e.severity ∧ d.code.number ≤ e.code.number)

def sameRank (d e : Diagnostic) : Bool :=
  d.primary = e.primary ∧ d.severity = e.severity ∧ d.code = e.code

theorem severity_eq_iff {s t : Severity} : s = t ↔ s.level = t.level := by
  constructor
  · exact congrArg Severity.level
  · intro level
    cases s
    cases t
    exact congrArg Severity.mk level

variable {d e c : Diagnostic}

theorem le_iff : d.le e = true ↔ d.Precedes e := by
  unfold le Precedes
  by_cases place : d.primary = e.primary
  · have apart := Bool.eq_false_iff.mpr (Range.before_irrefl e.primary)
    by_cases severity : d.severity = e.severity
    · simp [place, severity, apart]
    · have levels := severity_eq_iff.not.mp severity
      simp only [place, severity, apart, ne_eq, not_true_eq_false, not_false_eq_true, if_true,
        if_false, decide_eq_true_eq, Bool.false_eq_true, true_and, false_and, false_or, or_false]
      omega
  · simp only [place, ne_eq, not_false_eq_true, if_true, false_and, or_false, Bool.not_eq_true']
    constructor
    · intro behind
      rcases Range.before_or_eq_or_before d.primary e.primary with first | same | last
      · exact first
      · exact absurd same place
      · rw [behind] at last
        cases last
    · intro first
      rw [Bool.eq_false_iff]
      intro last
      exact Range.before_irrefl _ (Range.before_trans first last)

theorem Precedes.trans (first : c.Precedes d) (second : d.Precedes e) : c.Precedes e := by
  unfold Precedes at *
  simp only [severity_eq_iff] at *
  rcases first with before | ⟨place, rest⟩
  · rcases second with before' | ⟨place', -⟩
    · exact .inl (Range.before_trans before before')
    · exact .inl (place' ▸ before)
  · rcases second with before' | ⟨place', rest'⟩
    · exact .inl (place ▸ before')
    · exact .inr ⟨place.trans place', by omega⟩

theorem Precedes.total (d e : Diagnostic) : d.Precedes e ∨ e.Precedes d := by
  unfold Precedes
  simp only [severity_eq_iff]
  rcases Range.before_or_eq_or_before d.primary e.primary with first | same | last
  · exact .inl (.inl first)
  · rw [same]
    simp only [true_and]
    omega
  · exact .inr (.inl last)

theorem precedes_of_sameRank (first : c.sameRank d = true)
    (second : c.sameRank e = true) : d.Precedes e := by
  simp only [sameRank, decide_eq_true_eq] at first second
  obtain ⟨place, severity, code⟩ := first
  obtain ⟨place', severity', code'⟩ := second
  refine .inr ⟨place.symm.trans place', .inr ⟨severity.symm.trans severity', ?_⟩⟩
  rw [← code, ← code']

end Diagnostic

/-- `ys` is `xs` in order, and what has one rank stands as it stands in `xs`. -/
structure StablySorted (xs ys : List Diagnostic) : Prop where
  perm : ys.Perm xs
  ordered : ys.Pairwise Diagnostic.Precedes
  stable : ∀ d : Diagnostic, ys.filter d.sameRank = xs.filter d.sameRank

theorem Bag.sort_stable (b : Bag) : StablySorted b.items b.sort.items := by
  have trans : ∀ c d e : Diagnostic, c.le d = true → d.le e = true → c.le e = true := by
    intro c d e first second
    exact Diagnostic.le_iff.mpr ((Diagnostic.le_iff.mp first).trans (Diagnostic.le_iff.mp second))
  have total : ∀ d e : Diagnostic, (d.le e || e.le d) = true := by
    intro d e
    rw [Bool.or_eq_true, Diagnostic.le_iff, Diagnostic.le_iff]
    exact Diagnostic.Precedes.total d e
  constructor
  · exact List.mergeSort_perm b.items Diagnostic.le
  · exact (List.pairwise_mergeSort trans total b.items).imp Diagnostic.le_iff.mp
  · intro d
    apply SourceMap.filter_mergeSort_of_ordered trans total
    apply List.pairwise_of_forall_mem_list
    intro c first e second
    rw [Diagnostic.le_iff]
    exact Diagnostic.precedes_of_sameRank (List.of_mem_filter first) (List.of_mem_filter second)

namespace Relay

def Knows (r : Relay) (a : RawDiagnostic) : Prop := (r.catalog.match? a).isSome = true

def Repeats (r : Relay) (a b : RawDiagnostic) : Prop :=
  r.Knows a ∧ r.Knows b ∧ (r.tell a).primary = (r.tell b).primary ∧ (r.tell a).code = (r.tell b).code ∨
    ¬r.Knows a ∧ ¬r.Knows b ∧
      a.code = b.code ∧ a.message = b.message ∧ a.file = b.file ∧ a.span = b.span

instance (r : Relay) (a : RawDiagnostic) : Decidable (r.Knows a) :=
  inferInstanceAs (Decidable ((r.catalog.match? a).isSome = true))

instance (r : Relay) (a b : RawDiagnostic) : Decidable (r.Repeats a b) :=
  inferInstanceAs (Decidable (_ ∨ _))

def isNew (r : Relay) (earlier : List RawDiagnostic) (a : RawDiagnostic) : Bool :=
  !earlier.any fun e => r.Repeats e a

/-- The records that repeat none before them, in the order of their arrival. -/
def fresh (r : Relay) (records : List RawDiagnostic) : List RawDiagnostic :=
  (records.zipIdx.filter fun p => r.isNew (records.take p.2) p.1).map (·.1)

variable {a : RawDiagnostic}

theorem tell_kind (r : Relay) (a : RawDiagnostic) :
    (r.tell a).kind ≠ .unrecognized ↔ r.Knows a := by
  unfold tell Knows
  dsimp only
  split
  · rename_i found
    simp [found]
  · rename_i found
    simp [found]

theorem tell_raw (r : Relay) (a : RawDiagnostic) : (r.tell a).raw = some a := by
  unfold tell
  dsimp only
  split <;> rfl

theorem keyOf_eq_iff {b : RawDiagnostic} :
    keyOf a = keyOf b ↔ a.code = b.code ∧ a.message = b.message ∧ a.file = b.file ∧ a.span = b.span := by
  simp only [keyOf, RecordKey.mk.injEq]

theorem key_eq_iff {d e : Diagnostic} : d.key = e.key ↔ d.primary = e.primary ∧ d.code = e.code := by
  simp only [Diagnostic.key, Prod.mk.injEq]
  exact And.comm

theorem repeats_iff (r : Relay) (a b : RawDiagnostic) :
    decide (r.Repeats a b) = true ↔ r.recordKey a = r.recordKey b := by
  rw [decide_eq_true_iff, ← same_iff]
  simp only [Repeats, Same, ← tell_kind, key_eq_iff, keyOf_eq_iff, ne_eq, not_not]

theorem fresh_eq_firsts (r : Relay) (records : List RawDiagnostic) :
    r.fresh records = firsts r.recordKey [] records :=
  (firsts_leading r.repeats_iff [] records fun _ => Iff.rfl).symm

theorem tellAll_stable (r : Relay) :
    StablySorted (fitting r.limit ((r.fresh r.records).map r.tell)) r.tellAll := by
  have told : (r.records.foldl r.gather { bag := { limit := r.limit } }).bag.items =
      fitting r.limit ((r.fresh r.records).map r.tell) := by
    rw [gather_news, Bag.addAll_items (Bag.sized_empty _), fresh_eq_firsts, ← news_start]
    rfl
  have sorted := Bag.sort_stable (r.records.foldl r.gather { bag := { limit := r.limit } }).bag
  rw [told] at sorted
  exact sorted

end Relay

/-- The records of a build are told once each, as far as the limit allows, and in order. A record is
left out only when one before it says the same. Whatever is told names the record it comes from. -/
theorem records_told_once (catalog : Catalog) (files : FileSet) (unit : Generated) (limit : Int)
    (records : List RawDiagnostic) :
    ∃ received told, (Relay.start catalog files unit limit).receive records = .ok received ∧
      received.recount = .ok told ∧
      StablySorted (fitting limit (((Relay.start catalog files unit limit).fresh records).map
        (Relay.start catalog files unit limit).tell)) told.told ∧
      ∀ d ∈ told.told, ∃ a ∈ records,
        d = (Relay.start catalog files unit limit).tell a ∧ d.raw = some a := by
  have sorted := Relay.tellAll_stable
    { Relay.start catalog files unit limit with records, phase := .received }
  refine ⟨_, _, rfl, rfl, sorted, ?_⟩
  intro d mem
  obtain ⟨a, fresh, rfl⟩ := List.mem_map.mp (mem_of_mem_fitting (sorted.perm.mem_iff.mp mem))
  obtain ⟨⟨b, i⟩, kept, rfl⟩ := List.mem_map.mp fresh
  have listed := List.fst_mem_of_mem_zipIdx (List.mem_of_mem_filter kept)
  exact ⟨b, listed, rfl, Relay.tell_raw _ b⟩

end Tenure
