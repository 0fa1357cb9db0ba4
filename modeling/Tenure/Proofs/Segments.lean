import Tenure.Proofs.Sweep

/- The segments of a list of entries: their order, and what each of them says about its bytes. -/
namespace Tenure.SourceMap

theorem sweep_laid (entries : List Entry) :
    Laid (sweep entries).place (sweep entries).segments :=
  close_laid _ _ (foldl_laid (ordered_pairwise entries))

section Laid

variable {place : Nat} {segments : List Segment}

theorem laid_bounds (laid : Laid place segments) {s : Segment} (hs : s ∈ segments) :
    s.start < s.stop ∧ s.stop ≤ place := by
  induction segments generalizing place with
  | nil => simp at hs
  | cons t ts ih =>
    obtain ⟨filled, inside, -, rest⟩ := laid
    rcases List.mem_cons.mp hs with rfl | hs
    · exact ⟨filled, inside⟩
    · have := ih rest hs
      omega

theorem laid_pairwise (laid : Laid place segments) :
    segments.Pairwise fun t s => s.stop ≤ t.start := by
  induction segments generalizing place with
  | nil => exact List.Pairwise.nil
  | cons t ts ih =>
    obtain ⟨-, -, -, rest⟩ := laid
    exact List.pairwise_cons.mpr ⟨fun s hs => (laid_bounds rest hs).2, ih rest⟩

theorem laid_touching {s t : Segment} (laid : Laid place segments) (hs : s ∈ segments)
    (ht : t ∈ segments) (touch : s.stop = t.start) : s.credit ≠ t.credit := by
  induction segments generalizing place with
  | nil => simp at hs
  | cons u us ih =>
    obtain ⟨filled, -, differs, rest⟩ := laid
    rcases List.mem_cons.mp hs with rfl | before
    · rcases List.mem_cons.mp ht with rfl | early
      · omega
      · have := laid_bounds rest early
        omega
    · rcases List.mem_cons.mp ht with rfl | early
      · -- What stands right before `t` is the next one of the list.
        cases us with
        | nil => simp at before
        | cons v vs =>
          rcases List.mem_cons.mp before with rfl | far
          · exact differs s (by simp) touch
          · obtain ⟨filled', inside, -, rest'⟩ := rest
            have := laid_bounds rest' far
            omega
      · exact ih rest before early

end Laid

theorem creditIn_some {segments : List Segment} {o : Nat} {c : Credit}
    (known : creditIn segments o = some c) :
    ∃ s ∈ segments, s.contains o = true ∧ s.credit = c := by
  rw [creditIn, Option.map_eq_some_iff] at known
  obtain ⟨s, found, eq⟩ := known
  have inside := List.find?_some found
  exact ⟨s, List.mem_of_find?_eq_some found, inside, eq⟩

section Flatten

variable {entries : List Entry} {s t : Segment} {o : Nat}

theorem mem_flatten : s ∈ flatten entries ↔ s ∈ (sweep entries).segments := by simp [flatten]

theorem flatten_filled (hs : s ∈ flatten entries) : s.start < s.stop :=
  (laid_bounds (sweep_laid entries) (mem_flatten.mp hs)).1

theorem flatten_pairwise (entries : List Entry) :
    (flatten entries).Pairwise fun s t => s.stop ≤ t.start := by
  rw [flatten, List.pairwise_reverse]
  exact laid_pairwise (sweep_laid entries)

theorem flatten_touching (hs : s ∈ flatten entries) (ht : t ∈ flatten entries)
    (touch : s.stop = t.start) : s.credit ≠ t.credit :=
  laid_touching (sweep_laid entries) (mem_flatten.mp hs) (mem_flatten.mp ht) touch

theorem flatten_apart (hs : s ∈ flatten entries) (ht : t ∈ flatten entries) :
    s = t ∨ s.stop ≤ t.start ∨ t.stop ≤ s.start := by
  obtain ⟨i, hi, rfl⟩ := List.mem_iff_getElem.mp hs
  obtain ⟨j, hj, rfl⟩ := List.mem_iff_getElem.mp ht
  have order := List.pairwise_iff_getElem.mp (flatten_pairwise entries)
  rcases Nat.lt_trichotomy i j with before | rfl | behind
  · exact Or.inr (Or.inl (order i j hi hj before))
  · exact Or.inl rfl
  · exact Or.inr (Or.inr (order j i hj hi behind))

theorem creditIn_flatten (hs : s ∈ flatten entries) (inside : s.contains o = true) :
    creditIn (sweep entries).segments o = some s.credit := by
  cases known : creditIn (sweep entries).segments o with
  | none =>
    rw [creditIn, Option.map_eq_none_iff] at known
    exact absurd inside (List.find?_eq_none.mp known s (mem_flatten.mp hs))
  | some c =>
    obtain ⟨t, ht, inside', rfl⟩ := creditIn_some known
    rw [segment_contains_iff] at inside inside'
    rcases flatten_apart hs (mem_flatten.mpr ht) with rfl | before | behind
    · rfl
    · omega
    · omega

theorem flatten_segment (nested : WellNested entries) {c : Credit}
    (known : creditOf (around entries o) = some c) :
    ∃ s ∈ flatten entries, s.contains o = true ∧ s.credit = c := by
  rw [← sweep_credit nested] at known
  obtain ⟨s, hs, rest⟩ := creditIn_some known
  exact ⟨s, mem_flatten.mpr hs, rest⟩

theorem flatten_credit (nested : WellNested entries) (hs : s ∈ flatten entries)
    (inside : s.contains o = true) : creditOf (around entries o) = some s.credit := by
  rw [← sweep_credit nested, creditIn_flatten hs inside]

theorem mem_around {e : Entry} : e ∈ around entries o ↔ e ∈ entries ∧ e.covers o = true := by
  simp [around]

theorem flatten_covers_iff (nested : WellNested entries) :
    (∃ s ∈ flatten entries, s.contains o = true) ↔ ∃ e ∈ entries, e.covers o = true := by
  constructor
  · rintro ⟨s, hs, inside⟩
    have credit := flatten_credit nested hs inside
    cases chain : around entries o with
    | nil => simp [chain, creditOf] at credit
    | cons e es =>
      have : e ∈ around entries o := by simp [chain]
      exact ⟨e, mem_around.mp this⟩
  · rintro ⟨e, he, covered⟩
    have member : e ∈ around entries o := mem_around.mpr ⟨he, covered⟩
    cases chain : around entries o with
    | nil => simp [chain] at member
    | cons d ds =>
      obtain ⟨s, hs, inside, -⟩ := flatten_segment nested (o := o) (by rw [chain, creditOf])
      exact ⟨s, hs, inside⟩

theorem flatten_run (nested : WellNested entries) {start stop : Nat} (filled : start < stop)
    {c : Credit} (same : ∀ o, start ≤ o → o < stop → creditOf (around entries o) = some c) :
    ∃ s ∈ flatten entries, s.start ≤ start ∧ stop ≤ s.stop ∧ s.credit = c := by
  have owned := fun o lo hi => flatten_segment nested (same o lo hi)
  obtain ⟨s, hs, inside, credit⟩ := owned start (Nat.le_refl _) filled
  rw [segment_contains_iff] at inside
  refine ⟨s, hs, inside.1, ?_, credit⟩
  -- Otherwise the byte behind `s` has the same credit in a segment of its own that touches `s`.
  by_contra short
  obtain ⟨t, ht, inside', credit'⟩ := owned s.stop (by omega) (by omega)
  rw [segment_contains_iff] at inside'
  have filled := flatten_filled hs
  rcases flatten_apart hs ht with rfl | before | behind
  · omega
  · exact flatten_touching hs ht (by omega) (credit.trans credit'.symm)
  · omega

end Flatten

structure Ordered (m : SourceMap) : Prop where
  filled : ∀ s ∈ m.segments, s.start ≤ s.stop
  apart : m.segments.Pairwise fun s t => s.stop ≤ t.start

instance (m : SourceMap) : Decidable m.Ordered :=
  decidable_of_iff ((∀ s ∈ m.segments, s.start ≤ s.stop) ∧
      m.segments.Pairwise fun s t => s.stop ≤ t.start)
    ⟨fun ⟨filled, apart⟩ => ⟨filled, apart⟩, fun o => ⟨o.filled, o.apart⟩⟩

theorem build_ordered (module generated : String) (entries : List Entry) :
    (build module generated entries).Ordered :=
  ⟨fun _ hs => Nat.le_of_lt (flatten_filled hs), flatten_pairwise entries⟩

/-- A byte is in a segment exactly when an entry covers it. The segment has the origin of the
innermost entry, the first statement that is known around the byte, and the first origin that is
known around it as its anchor. -/
theorem build_credits_innermost (module generated : String) {entries : List Entry}
    (nested : WellNested entries) (o : Nat) :
    ((∃ s ∈ (build module generated entries).segments, s.contains o = true) ↔
      ∃ e ∈ entries, e.covers o = true) ∧
    ∀ s ∈ (build module generated entries).segments, s.contains o = true →
      ∃ e outer, around entries o = e :: outer ∧ s.origin = e.origin ∧
        s.synthetic = e.synthetic ∧ s.stmt = stmtOf (e :: outer) ∧
        s.anchor = anchorOf (e :: outer) := by
  refine ⟨flatten_covers_iff nested, ?_⟩
  intro s hs inside
  have credit := flatten_credit nested hs inside
  cases chain : around entries o with
  | nil => simp [chain, creditOf] at credit
  | cons e outer =>
    rw [chain, creditOf, Option.some.injEq, Segment.credit, Credit.mk.injEq] at credit
    obtain ⟨origin, anchor, stmt, synthetic⟩ := credit
    exact ⟨e, outer, rfl, origin.symm, synthetic.symm, stmt.symm, anchor.symm⟩

def sharedRange : List Entry := [
  { start := 2, stop := 5, origin := Range.zero, stmt := Range.zero, synthetic := true },
  { start := 2, stop := 5, origin := Range.of 0 1 5 1 6, stmt := Range.zero },
  { start := 0, stop := 9, origin := Range.zero, stmt := Range.of 0 1 1 1 10 }]

theorem build_credits_shared_range :
    WellNested sharedRange ∧
      ∃ s ∈ (build "main" "main.rs" sharedRange).segments, s.contains 3 = true ∧
        s.origin = Range.zero ∧ s.synthetic = true ∧ s.stmt = Range.of 0 1 1 1 10 ∧
        s.anchor = Range.of 0 1 5 1 6 := by
  have nested : WellNested sharedRange := by decide
  refine ⟨nested, ?_⟩
  obtain ⟨covered, credited⟩ := build_credits_innermost "main" "main.rs" nested 3
  obtain ⟨s, hs, inside⟩ := covered.mpr (by decide)
  obtain ⟨e, outer, chain, origin, synthetic, stmt, anchor⟩ := credited s hs inside
  have known : around sharedRange 3 = sharedRange :=
    List.mergeSort_of_pairwise (by decide)
  rw [known] at chain
  obtain ⟨rfl, rfl⟩ := List.cons.inj chain
  exact ⟨s, hs, inside, origin, synthetic, stmt, anchor⟩

section Backed

/-- Whether entries nest or not, each credit behind the entries `done` is that of one of them, and
the first byte of each of them is credited. -/
structure Backed (done : List Entry) (s : Sweep) : Prop where
  entry : ∀ o c, s.credit o = some c → ∃ e ∈ done, e.covers o = true ∧ e.origin = c.origin ∧
    e.synthetic = c.synthetic
  first : ∀ e ∈ done, e.start < e.stop → (s.credit e.start).isSome

theorem inherit_stop_le (e : Entry) (parent : Option Pending) : (inherit e parent).stop ≤ e.stop := by
  cases parent with
  | none => exact Nat.le_refl _
  | some p => exact Nat.min_le_left _ _

theorem inherit_filled {s : Sweep} {e : Entry} (filled : e.start < e.stop) :
    e.start < (inherit e (parentOf s e)).stop := by
  cases found : parentOf s e with
  | none => exact filled
  | some p =>
    have around : e.start < p.stop := by simpa using List.find?_some found
    exact Nat.lt_min.mpr ⟨filled, around⟩

theorem backed_step {done : List Entry} {s : Sweep} {e : Entry} (reached : s.place ≤ e.start)
    (laid : Laid s.place s.segments) (backed : Backed done s) :
    Backed (done ++ [e]) (step s e) := by
  have stop := inherit_stop_le e (parentOf s e)
  constructor
  · intro o c
    rw [step_credit reached laid]
    split
    · rintro ⟨⟩
      refine ⟨e, by simp, Entry.covers_iff.mpr (by omega), ?_⟩
      cases parentOf s e with
      | none => exact ⟨rfl, rfl⟩
      | some p => exact ⟨rfl, rfl⟩
    · intro known
      obtain ⟨d, hd, rest⟩ := backed.entry o c known
      exact ⟨d, by simp [hd], rest⟩
  · intro d hd filled
    rw [step_credit reached laid]
    split
    · rfl
    · rename_i outside
      rcases List.mem_append.mp hd with old | new
      · exact backed.first d old filled
      · obtain rfl := List.mem_singleton.mp new
        exact absurd ⟨Nat.le_refl _, inherit_filled filled⟩ outside

theorem sweep_backed (entries : List Entry) :
    Backed (ordered entries) ((ordered entries).foldl step {}) :=
  (foldl_keeps (ordered_pairwise entries) ⟨by simp [Sweep.credit], by simp⟩
    fun _ _ reached laid => backed_step reached laid).2

theorem flatten_backed {entries : List Entry} {s : Segment} (hs : s ∈ flatten entries) {o : Nat}
    (inside : s.contains o = true) :
    ∃ e ∈ entries, e.covers o = true ∧ e.origin = s.origin ∧ e.synthetic = s.synthetic := by
  have credit := creditIn_flatten hs inside
  rw [creditIn_sweep] at credit
  obtain ⟨e, he, rest⟩ := (sweep_backed entries).entry o _ credit
  exact ⟨e, (mem_ordered.mp he).1, rest⟩

theorem flatten_stop_le {entries : List Entry} {size : Nat} (inside : ∀ e ∈ entries, e.stop ≤ size)
    {s : Segment} (hs : s ∈ flatten entries) : s.stop ≤ size := by
  have filled := flatten_filled hs
  obtain ⟨e, he, covered, -⟩ := flatten_backed hs (o := s.stop - 1) (segment_contains_iff.mpr (by omega))
  have := inside e he
  have := Entry.covers_iff.mp covered
  omega

/-- What each entry passes on to its bytes, given that the entry around it does so, all segments have. -/
theorem flatten_credits {P : Credit → Prop} {entries : List Entry}
    (passed : ∀ e ∈ entries, ∀ parent : Option Pending, (∀ p, parent = some p → P p.credit) →
      P (inherit e parent).credit) {s : Segment} (hs : s ∈ flatten entries) : P s.credit := by
  have kept : ∀ o c, ((ordered entries).foldl step {}).credit o = some c → P c := by
    refine (foldl_keeps (P := fun _ s => ∀ o c, s.credit o = some c → P c) (ordered_pairwise entries)
      (by simp [Sweep.credit]) ?_).2
    intro done e s among _ reached laid kept o c
    rw [step_credit reached laid]
    split
    · rintro ⟨⟩
      refine passed e (mem_ordered.mp (among e (by simp))).1 _ fun p parent => kept e.start _ ?_
      rw [Sweep.credit, if_neg (Nat.not_lt.mpr reached)]
      exact congrArg (Option.map Pending.credit) parent
    · exact kept o c
  have filled := flatten_filled hs
  have credit := creditIn_flatten hs (o := s.start) (segment_contains_iff.mpr (by omega))
  rw [creditIn_sweep] at credit
  exact kept _ _ credit

end Backed

/-- How the entries of a text come together: one by one, and from a text that is placed at an
offset of it. -/
inductive Recording where
  | start
  | add (before : Recording) (e : Entry)
  | merge (before inner : Recording) (delta : Nat)

namespace Recording

def entries : Recording → List Entry
  | start => []
  | add before e => before.entries ++ [e.normal]
  | merge before inner delta => before.entries ++ inner.entries.map (Entry.shift delta)

def placed : Recording → List Entry
  | start => []
  | add before e => before.placed ++ [e.normal]
  | merge before inner delta => before.placed ++
      inner.placed.map fun e => { e with start := e.start + delta, stop := e.stop + delta }

def InWords : Recording → Prop
  | start => True
  | add before _ => before.InWords
  | merge before inner delta => before.InWords ∧ inner.InWords ∧
      ∀ e ∈ inner.placed, e.start + delta < range32 ∧ e.stop + delta < range32

theorem entries_eq_placed {r : Recording} (words : r.InWords) : r.entries = r.placed := by
  induction r with
  | start => rfl
  | add before e ih => rw [entries, placed, ih words]
  | merge before inner delta ih ih' =>
    obtain ⟨outer, own, sums⟩ := words
    rw [entries, placed, ih outer, ih' own]
    congr 1
    refine List.map_congr_left fun e he => ?_
    obtain ⟨start, stop⟩ := sums e he
    rw [Entry.shift, wrap32, wrap32, Nat.mod_eq_of_lt start, Nat.mod_eq_of_lt stop]

end Recording

/-- Segments that stand one behind another, none of them empty, and say different things where they
touch. Each byte of a segment is in an entry with its origin, and the first byte of each entry is in
a segment. -/
structure LaidOut (entries : List Entry) (segments : List Segment) : Prop where
  filled : ∀ s ∈ segments, s.start < s.stop
  apart : segments.Pairwise fun s t => s.start < t.start ∧ s.stop ≤ t.start
  differ : ∀ s ∈ segments, ∀ t ∈ segments, s.stop = t.start → s.credit ≠ t.credit
  backed : ∀ s ∈ segments, ∀ o, s.contains o = true →
    ∃ e ∈ entries, e.covers o = true ∧ e.origin = s.origin ∧ e.synthetic = s.synthetic
  opened : ∀ e ∈ entries, e.start < e.stop → ∃ s ∈ segments, s.contains e.start = true

/-- However entries were recorded, their segments are laid out, also where entries overlap without
nesting and where a sum wraps. If none does, the entries are where they are meant to be. -/
theorem build_lays_out (module generated : String) (r : Recording) :
    LaidOut r.entries (build module generated r.entries).segments ∧
      (r.InWords → r.entries = r.placed) := by
  refine ⟨⟨fun s => flatten_filled, ?_, fun s hs t ht => flatten_touching hs ht,
    fun s hs o => flatten_backed hs, ?_⟩, Recording.entries_eq_placed⟩
  · refine (flatten_pairwise r.entries).imp_of_mem ?_
    intro s t hs _ before
    have := flatten_filled hs
    omega
  · intro e he filled
    have credited := (sweep_backed r.entries).first e (mem_ordered.mpr ⟨he, by omega⟩) filled
    rw [← creditIn_sweep, Option.isSome_iff_exists] at credited
    obtain ⟨c, known⟩ := credited
    obtain ⟨s, hs, inside, -⟩ := creditIn_some known
    exact ⟨s, mem_flatten.mpr hs, inside⟩

end Tenure.SourceMap
