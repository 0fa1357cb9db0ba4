import Tenure.Backend.Doc
import Tenure.Proofs.Nesting

/- Where the marks of a document stand in its text. A document is a tree, so its marks nest, inner
   ones are listed before outer ones, and a part of a document brings its own marks along. -/
namespace Tenure

def Mark.entry (m : Mark) (d : Doc) (off : Nat) : Entry :=
  { start := off, stop := off + d.size, origin := m.origin, stmt := m.stmt, synthetic := m.synthetic }

namespace Doc

@[elab_as_elim]
theorem parts_induction {P : Doc → Prop} (text : ∀ s, P (.text s)) (nil : P (.cat []))
    (cons : ∀ d ds, P d → P (.cat ds) → P (.cat (d :: ds))) (marked : ∀ m d, P d → P (.marked m d))
    (fault : P .fault) (d : Doc) : P d :=
  @Doc.rec P (fun ds => P (.cat ds)) text (fun _ h => h) marked fault nil cons d

section Parts

variable (s : String) (m : Mark) (d : Doc) (ds : List Doc) (off : Nat)

@[simp] theorem size_text : (text s).size = s.utf8ByteSize := rfl

@[simp] theorem size_cat_nil : (cat []).size = 0 := rfl

@[simp] theorem size_cat_cons : (cat (d :: ds)).size = d.size + (cat ds).size := rfl

@[simp] theorem size_marked : (marked m d).size = d.size := rfl

@[simp] theorem size_fault : fault.size = 0 := rfl

@[simp] theorem flat_text : (text s).flat = s := by simp [flat, pieces, String.join]

@[simp] theorem flat_cat_nil : (cat []).flat = "" := by simp [flat, pieces, piecesAll]

@[simp] theorem flat_cat_cons : (cat (d :: ds)).flat = d.flat ++ (cat ds).flat := by
  simp [flat, pieces, piecesAll, String.join_append]

@[simp] theorem flat_marked : (marked m d).flat = d.flat := by simp [flat, pieces]

@[simp] theorem flat_fault : fault.flat = "" := by simp [flat, pieces]

@[simp] theorem entries_text : (text s).entries off = [] := rfl

@[simp] theorem entries_cat_nil : (cat []).entries off = [] := rfl

@[simp] theorem entries_cat_cons :
    (cat (d :: ds)).entries off = d.entries off ++ (cat ds).entries (off + d.size) := rfl

@[simp] theorem entries_marked :
    (marked m d).entries off = d.entries off ++ [m.entry d off] := rfl

@[simp] theorem entries_fault : fault.entries off = [] := rfl

end Parts

theorem flat_cat_append (ds es : List Doc) :
    (cat (ds ++ es)).flat = (cat ds).flat ++ (cat es).flat := by
  induction ds with
  | nil => simp
  | cons d ds ih => simp [ih, String.append_assoc]

theorem flat_size (d : Doc) : d.flat.utf8ByteSize = d.size := by
  induction d using parts_induction with
  | text s => simp
  | nil | fault => simp
  | cons d ds hd hds => simp [hd, hds, String.utf8ByteSize_append]
  | marked m d ih => simpa using ih

variable {d : Doc}

theorem entries_inside {off : Nat} {e : Entry} (he : e ∈ d.entries off) :
    off ≤ e.start ∧ e.start ≤ e.stop ∧ e.stop ≤ off + d.size := by
  induction d using parts_induction generalizing off with
  | text s => simp at he
  | nil | fault => simp at he
  | cons d ds hd hds =>
    simp only [entries_cat_cons, List.mem_append] at he
    simp only [size_cat_cons]
    rcases he with he | he
    · have := hd he
      omega
    · have := hds he
      omega
  | marked m d ih =>
    simp only [entries_marked, List.mem_append, List.mem_singleton] at he
    simp only [size_marked]
    rcases he with he | rfl
    · exact ih he
    · simp [Mark.entry]

theorem entries_pairwise (d : Doc) (off : Nat) :
    (d.entries off).Pairwise fun e f => e.stop ≤ f.start ∨ (f.start ≤ e.start ∧ e.stop ≤ f.stop) := by
  induction d using parts_induction generalizing off with
  | text s => simp
  | nil | fault => simp
  | cons d ds hd hds =>
    rw [entries_cat_cons, List.pairwise_append]
    refine ⟨hd off, hds _, ?_⟩
    intro e he f hf
    have := entries_inside he
    have := entries_inside hf
    omega
  | marked m d ih =>
    rw [entries_marked, List.pairwise_append]
    refine ⟨ih off, by simp, ?_⟩
    simp only [List.mem_singleton, Mark.entry]
    rintro e he f rfl
    have := entries_inside he
    dsimp only
    omega

theorem entries_fit {off : Nat} {e f : Entry} (he : e ∈ d.entries off)
    (hf : f ∈ d.entries off) : e.Fits f := by
  obtain ⟨i, hi, rfl⟩ := List.mem_iff_getElem.mp he
  obtain ⟨j, hj, rfl⟩ := List.mem_iff_getElem.mp hf
  have order := List.pairwise_iff_getElem.mp (entries_pairwise d off)
  unfold Entry.Fits
  rcases Nat.lt_trichotomy i j with before | rfl | behind
  · have := order i j hi hj before
    omega
  · omega
  · have := order j i hj hi behind
    omega

theorem entries_wellNested (d : Doc) (off : Nat) : WellNested (d.entries off) :=
  fun _ he _ hf _ _ => entries_fit he hf

theorem around_entries (d : Doc) (off o : Nat) :
    SourceMap.around (d.entries off) o = (d.entries off).filter (·.covers o) := by
  apply List.mergeSort_of_pairwise
  refine ((entries_pairwise d off).filter _).imp_of_mem ?_
  intro e f he hf order
  have ce := Entry.covers_iff.mp (List.mem_filter.mp he).2
  have cf := Entry.covers_iff.mp (List.mem_filter.mp hf).2
  refine decide_eq_true ?_
  unfold Entry.length
  omega

theorem filter_covers_before {off o : Nat} (before : o < off) :
    (d.entries off).filter (·.covers o) = [] := by
  rw [List.filter_eq_nil_iff]
  intro e he covered
  have := entries_inside he
  have := Entry.covers_iff.mp covered
  omega

theorem filter_covers_behind {off o : Nat} (behind : off + d.size ≤ o) :
    (d.entries off).filter (·.covers o) = [] := by
  rw [List.filter_eq_nil_iff]
  intro e he covered
  have := entries_inside he
  have := Entry.covers_iff.mp covered
  omega

theorem entries_add (d : Doc) (off k : Nat) :
    d.entries (off + k) =
      (d.entries off).map fun e => { e with start := e.start + k, stop := e.stop + k } := by
  induction d using parts_induction generalizing off with
  | text s => simp
  | nil | fault => simp
  | cons d ds hd hds =>
    simp only [entries_cat_cons, List.map_append, hd, ← hds]
    rw [Nat.add_right_comm]
  | marked m d ih => simp [ih, Mark.entry, Nat.add_right_comm]

theorem entries_shift (d : Doc) (delta : Nat) :
    (d.entries 0).map (Entry.shift delta) = (d.entries delta).map (Entry.shift 0) := by
  have moved := entries_add d 0 delta
  rw [Nat.zero_add] at moved
  rw [moved, List.map_map]
  rfl

/-- Every mark of a text in which the document starts at `off` ends at a word. -/
def InWords (off : Nat) (d : Doc) : Prop := ∀ e ∈ d.entries off, e.stop < range32

instance (off : Nat) (d : Doc) : Decidable (d.InWords off) := inferInstanceAs (Decidable (∀ _ ∈ _, _))

theorem inWords_of_lt {off : Nat} (fits : off + d.size < range32) : d.InWords off :=
  fun _ he => Nat.lt_of_le_of_lt (entries_inside he).2.2 fits

theorem InWords.entries_shift {off : Nat} (words : d.InWords off) :
    (d.entries off).map (Entry.shift 0) = d.entries off := by
  refine (List.map_congr_left fun e he => ?_).trans (List.map_id _)
  have := entries_inside he
  have := words e he
  simp only [Entry.shift, wrap32]
  rw [Nat.mod_eq_of_lt (by omega), Nat.mod_eq_of_lt (by omega)]
  rfl

theorem mapped_covers_iff (origin stmt : Range) (ds : List Doc) (off o : Nat) :
    (∃ e ∈ (mapped origin stmt ds).entries off, e.covers o = true) ↔
      off ≤ o ∧ o < off + (mapped origin stmt ds).size := by
  constructor
  · rintro ⟨e, he, covered⟩
    have := entries_inside he
    have := Entry.covers_iff.mp covered
    omega
  · intro within
    refine ⟨Mark.entry ⟨origin, stmt, false⟩ (cat ds) off, by simp [mapped], ?_⟩
    simpa [mapped, Mark.entry] using within

inductive At : Doc → Nat → Doc → Prop where
  | here (d : Doc) : At d 0 d
  | marked {m : Mark} {d e : Doc} {o : Nat} (h : At d o e) : At (.marked m d) o e
  | head {d e : Doc} {ds : List Doc} {o : Nat} (h : At d o e) : At (.cat (d :: ds)) o e
  | tail {d e : Doc} {ds : List Doc} {o : Nat} (h : At (.cat ds) o e) :
      At (.cat (d :: ds)) (d.size + o) e

namespace At

variable {root d : Doc} {o : Nat}

theorem inside (h : At root o d) : o + d.size ≤ root.size := by
  induction h with
  | here d => omega
  | marked h ih => simpa using ih
  | head h ih => simp only [size_cat_cons]; omega
  | tail h ih => simp only [size_cat_cons]; omega

theorem trans {e : Doc} {p : Nat} (h : At root o d) (h' : At d p e) : At root (o + p) e := by
  induction h with
  | here d => rwa [Nat.zero_add]
  | marked h ih => exact .marked (ih h')
  | head h ih => exact .head (ih h')
  | tail h ih => rw [Nat.add_assoc]; exact .tail (ih h')

theorem of_mem {ds : List Doc} (h : d ∈ ds) : ∃ o, At (.cat ds) o d := by
  induction ds with
  | nil => simp at h
  | cons e es ih =>
    rcases List.mem_cons.mp h with rfl | later
    · exact ⟨0, .head (.here d)⟩
    · obtain ⟨o, rest⟩ := ih later
      exact ⟨_, .tail rest⟩

theorem of_mapped {origin stmt : Range} {ds : List Doc} (h : d ∈ ds) :
    ∃ o, At (mapped origin stmt ds) o d := by
  obtain ⟨o, part⟩ := of_mem h
  exact ⟨o, .marked part⟩

theorem text_split (h : At root o d) :
    ∃ before after, root.flat = before ++ d.flat ++ after ∧ before.utf8ByteSize = o := by
  induction h with
  | here d => exact ⟨"", "", by simp, rfl⟩
  | marked h ih => simpa using ih
  | @head d e ds o h ih =>
    obtain ⟨before, after, text, place⟩ := ih
    exact ⟨before, after ++ (cat ds).flat, by simp [text, String.append_assoc], place⟩
  | @tail d e ds o h ih =>
    obtain ⟨before, after, text, place⟩ := ih
    refine ⟨d.flat ++ before, after, by simp [text, String.append_assoc], ?_⟩
    rw [String.utf8ByteSize_append, flat_size, place]

theorem around_part (h : At root o d) (off : Nat) :
    ∃ outer, ∀ b, off + o ≤ b → b < off + o + d.size →
      (root.entries off).filter (·.covers b) = (d.entries (off + o)).filter (·.covers b) ++ outer := by
  induction h generalizing off with
  | here d => exact ⟨[], by simp⟩
  | @marked m d e o h ih =>
    obtain ⟨outer, eq⟩ := ih off
    refine ⟨outer ++ [m.entry d off], ?_⟩
    intro b lo hi
    have short := h.inside
    have covered : (m.entry d off).covers b = true :=
      Entry.covers_iff.mpr (by simp only [Mark.entry]; omega)
    simp [eq b lo hi, covered]
  | @head d e ds o h ih =>
    obtain ⟨outer, eq⟩ := ih off
    refine ⟨outer, ?_⟩
    intro b lo hi
    have short := h.inside
    have rest : ((cat ds).entries (off + d.size)).filter (·.covers b) = [] :=
      filter_covers_before (by omega)
    simp [eq b lo hi, rest]
  | @tail d e ds o h ih =>
    obtain ⟨outer, eq⟩ := ih (off + d.size)
    refine ⟨outer, ?_⟩
    intro b lo hi
    have front : (d.entries off).filter (·.covers b) = [] := filter_covers_behind (by omega)
    simp [eq b (by omega) (by omega), front, Nat.add_assoc]

end At

end Doc

end Tenure
