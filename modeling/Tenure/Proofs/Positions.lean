import Mathlib.Data.List.Induction
import Mathlib.Data.List.TakeWhile
import Tenure.Proofs.Encoding
import Tenure.Source.FileSet

/- Lines and columns of a file. Counting lines and bytes or characters up to a place, and asking the
   file for that position, gives the place again. A position that nobody counted is kept inside its
   line, unless its column is so large that the sum wraps. -/
namespace Tenure

variable {head tail line : Bytes} {p : Pos}

section Lines

variable {α : Type} [DecidableEq α] (mark : α)

theorem first_line (as : List α) :
    ∃ line tail, as = line ++ tail ∧ mark ∉ line ∧ (tail = [] ∨ ∃ bs, tail = mark :: bs) := by
  refine ⟨as.takeWhile (· ≠ mark), as.dropWhile (· ≠ mark), by simp, ?_, ?_⟩
  · intro mem
    simpa using List.mem_takeWhile_imp mem
  · cases rest : as.dropWhile (· ≠ mark) with
    | nil => exact Or.inl rfl
    | cons a bs =>
      have head := List.head?_dropWhile_not (· ≠ mark) as
      simp only [rest, List.head?_cons] at head
      exact Or.inr ⟨bs, by simpa using head⟩

theorem last_line (as : List α) :
    ∃ head tail, as = head ++ tail ∧ mark ∉ tail ∧ (head = [] ∨ ∃ bs, head = bs ++ [mark]) := by
  obtain ⟨line, tail, split, within, ends⟩ := first_line mark as.reverse
  refine ⟨tail.reverse, line.reverse, ?_, by simpa using within, ?_⟩
  · rw [← List.reverse_append, ← split, List.reverse_reverse]
  · rcases ends with rfl | ⟨bs, rfl⟩
    · exact Or.inl rfl
    · exact Or.inr ⟨bs.reverse, by simp⟩

end Lines

section Newlines

theorem newlinesFrom_append (n : Nat) (bs cs : Bytes) :
    newlinesFrom n (bs ++ cs) = newlinesFrom n bs ++ newlinesFrom (n + bs.length) cs := by
  induction bs generalizing n with
  | nil => rfl
  | cons b bs ih =>
    have later : n + 1 + bs.length = n + (bs.length + 1) := by omega
    simp only [List.cons_append, newlinesFrom, ih, List.length_cons, later]
    split
    · rfl
    · rfl

theorem newlinesFrom_snoc (bs : Bytes) :
    newlinesFrom 0 (bs ++ [Bytes.newline]) = newlinesFrom 0 bs ++ [bs.length] := by
  simp [newlinesFrom_append, newlinesFrom]

theorem newlinesFrom_length (n : Nat) (bs : Bytes) :
    (newlinesFrom n bs).length = bs.count Bytes.newline := by
  induction bs generalizing n with
  | nil => rfl
  | cons b bs ih =>
    rw [newlinesFrom, List.count_cons]
    split
    · rename_i same
      simp [same, ih]
    · rename_i other
      simp [other, ih]

theorem newlinesFrom_line {n : Nat} {bs : Bytes} (line : Bytes.newline ∉ bs) :
    newlinesFrom n bs = [] := by
  rw [← List.length_eq_zero_iff, newlinesFrom_length, List.count_eq_zero]
  exact line

theorem newlinesFrom_lt {n k : Nat} {bs : Bytes} (mem : k ∈ newlinesFrom n bs) : k < n + bs.length := by
  induction bs generalizing n with
  | nil => cases mem
  | cons c bs ih =>
    rw [List.length_cons]
    unfold newlinesFrom at mem
    split at mem
    · rcases List.mem_cons.mp mem with rfl | later
      · omega
      · have := ih later
        omega
    · have := ih mem
      omega

end Newlines

structure File.Cut (f : File) (head line tail : Bytes) : Prop where
  content : f.content = head ++ line ++ tail
  opens : head = [] ∨ ∃ bs, head = bs ++ [Bytes.newline]
  within : Bytes.newline ∉ line
  ends : tail = [] ∨ ∃ bs, tail = Bytes.newline :: bs

namespace File.Cut

variable {f : File} {head line tail : Bytes} (cut : f.Cut head line tail)

include cut

theorem size : f.size = head.length + line.length + tail.length := by
  rw [File.size, cut.content, List.length_append, List.length_append]

theorem newlines : f.newlines = newlinesFrom 0 head ++ newlinesFrom (head.length + line.length) tail := by
  rw [File.newlines, cut.content, newlinesFrom_append, newlinesFrom_append,
    newlinesFrom_line cut.within]
  simp

theorem lineStart : f.lineStart (head.count Bytes.newline + 1) = some head.length := by
  rcases cut.opens with rfl | ⟨bs, rfl⟩
  · rfl
  · rw [List.count_append, List.count_singleton_self, File.lineStart, cut.newlines, newlinesFrom_snoc,
      ← newlinesFrom_length 0]
    simp

theorem lineStop : f.lineStop (head.count Bytes.newline + 1) = head.length + line.length := by
  rw [← newlinesFrom_length 0, File.lineStop, cut.newlines, cut.size, Nat.add_sub_cancel,
    List.getElem?_append_right (Nat.le_refl _), Nat.sub_self]
  rcases cut.ends with rfl | ⟨bs, rfl⟩
  · simp [newlinesFrom]
  · simp [newlinesFrom]

theorem line_eq : f.line (head.count Bytes.newline + 1) = line := by
  rw [File.line, cut.lineStart, cut.lineStop]
  dsimp only
  split
  · have := cut.size
    have empty : line.length = 0 := by omega
    exact (List.eq_nil_of_length_eq_zero empty).symm
  · rw [cut.content, List.append_assoc, List.drop_left, Nat.add_sub_cancel_left, List.take_left]

theorem offset_eq (col : Nat) :
    f.offset ⟨head.count Bytes.newline + 1, col⟩ =
      min (wrap32 (head.length + max col 1 - 1)) (head.length + line.length) := by
  rw [File.offset, if_neg (Nat.succ_ne_zero _), cut.lineStart, cut.lineStop]

end File.Cut

/-- The line and the column of the offset are words. In a file whose offsets are words all of them have
such a place, unless the file is as long as it can be and has no newline or nothing else: then the end has
none. -/
def File.InWords (f : File) (off : Nat) : Prop :=
  off + 1 < range32 ∨ Bytes.newline ∈ f.content ∧ ∃ b ∈ f.content, b ≠ Bytes.newline

section Bytes

variable {f : File}

theorem exists_cut_at {off : Nat} (inside : off ≤ f.size) :
    ∃ head before after tail, f.Cut head (before ++ after) tail ∧ off = head.length + before.length := by
  obtain ⟨head, before, front, unbroken, opens⟩ := last_line Bytes.newline (f.content.take off)
  obtain ⟨after, tail, back, within, ends⟩ := first_line Bytes.newline (f.content.drop off)
  refine ⟨head, before, after, tail, ⟨?_, opens, by simp [unbroken, within], ends⟩, ?_⟩
  · rw [← List.take_append_drop off f.content, front, back]
    simp
  · rw [← List.length_append, ← front, List.length_take_of_le inside]

theorem File.Cut.posOf {before after : Bytes} (cut : f.Cut head (before ++ after) tail) :
    f.posOf (head.length + before.length) =
      ⟨wrap32 (head.count Bytes.newline + 1), wrap32 (before.length + 1)⟩ := by
  have front : ∀ k ∈ newlinesFrom 0 head, decide (k < head.length + before.length) = true := by
    intro k mem
    have := newlinesFrom_lt mem
    exact decide_eq_true (by omega)
  have back : (newlinesFrom (head.length + (before ++ after).length) tail).takeWhile
      (· < head.length + before.length) = [] := by
    rcases cut.ends with rfl | ⟨bs, rfl⟩
    · rfl
    · simp [newlinesFrom]
  rw [File.posOf, cut.newlines, List.takeWhile_append_of_pos front, back, List.append_nil]
  rcases cut.opens with rfl | ⟨bs, rfl⟩
  · simp [newlinesFrom, wrap32, range32]
  · have col : bs.length + 1 + before.length - bs.length = before.length + 1 := by omega
    simp [newlinesFrom_snoc, newlinesFrom_length, col]

theorem File.Cut.inWords_iff {before after : Bytes} (cut : f.Cut head (before ++ after) tail)
    (fits : f.size < range32) : f.InWords (head.length + before.length) ↔
      head.count Bytes.newline + 1 < range32 ∧ before.length + 1 < range32 := by
  have size := cut.size
  have counted := List.count_le_length (a := Bytes.newline) (l := head)
  rw [List.length_append] at size
  have full : head.count Bytes.newline = head.length ↔ ∀ b ∈ head, Bytes.newline = b :=
    List.count_eq_length
  by_cases last : head.length + before.length + 1 < range32
  · exact iff_of_true (Or.inl last) (by omega)
  -- Nothing stands behind the offset, and the file has room for one number that is no word.
  have none : after = [] ∧ tail = [] := by
    constructor <;> apply List.eq_nil_of_length_eq_zero <;> omega
  have content : f.content = head ++ before := by simp [cut.content, none]
  have within : Bytes.newline ∉ before := fun mem => cut.within (List.mem_append_left _ mem)
  rw [File.InWords, content, or_iff_right last]
  constructor
  · rintro ⟨broken, b, member, other⟩
    have front := (List.mem_append.mp broken).resolve_right within
    have long := List.length_pos_of_mem front
    refine ⟨?_, by omega⟩
    rcases List.mem_append.mp member with here | behind
    · have := mt full.mp fun all => other (all b here).symm
      omega
    · have := List.length_pos_of_mem behind
      omega
  · rintro ⟨lines, columns⟩
    refine ⟨List.mem_append_left _ ?_, ?_⟩
    · rcases cut.opens with rfl | ⟨bs, rfl⟩
      · simp only [List.length_nil] at last
        omega
      · simp
    · cases before with
      | cons b bs => exact ⟨b, by simp, fun same => within (by simp [same])⟩
      | nil =>
        simp only [List.length_nil] at last
        by_contra same
        push Not at same
        have := full.mpr fun b member => (same b (List.mem_append_left _ member)).symm
        omega

theorem offset_posOf_iff (fits : f.size < range32) {off : Nat} (inside : off ≤ f.size) :
    f.offset (f.posOf off) = off ↔ f.InWords off := by
  obtain ⟨head, before, after, tail, cut, rfl⟩ := exists_cut_at inside
  have size := cut.size
  have counted := List.count_le_length (a := Bytes.newline) (l := head)
  rw [List.length_append] at size
  rw [cut.inWords_iff fits, cut.posOf, wrap32, wrap32]
  by_cases lines : head.count Bytes.newline + 1 < range32
  · rw [Nat.mod_eq_of_lt lines, cut.offset_eq, List.length_append]
    by_cases columns : before.length + 1 < range32
    · refine iff_of_true ?_ ⟨lines, columns⟩
      rw [Nat.mod_eq_of_lt columns, wrap32, Nat.mod_eq_of_lt (by omega)]
      omega
    · have exact_ : before.length + 1 = range32 := by omega
      refine iff_of_false ?_ fun h => columns h.2
      rw [exact_, Nat.mod_self, wrap32, Nat.mod_eq_of_lt (by omega)]
      have : range32 = 4294967296 := rfl
      omega
  · have exact_ : head.count Bytes.newline + 1 = range32 := by omega
    refine iff_of_false ?_ fun h => lines h.1
    rw [exact_, Nat.mod_self, File.offset, if_pos rfl]
    have : range32 = 4294967296 := rfl
    omega

end Bytes

section Chars

def Pos.advance (p : Pos) (c : Char) : Pos :=
  if c = '\n' then ⟨p.line + 1, 1⟩ else ⟨p.line, p.col + 1⟩

def Pos.after (cs : List Char) : Pos := cs.foldl Pos.advance ⟨1, 1⟩

theorem after_snoc (cs : List Char) (c : Char) : Pos.after (cs ++ [c]) = (Pos.after cs).advance c := by
  simp [Pos.after]

theorem after_line (cs : List Char) :
    (Pos.after cs).line = (Bytes.ofChars cs).count Bytes.newline + 1 := by
  induction cs using List.reverseRecOn with
  | nil => rfl
  | append_singleton cs c ih =>
    rw [after_snoc, Pos.advance, Bytes.ofChars_append, List.count_append]
    by_cases newline : c = '\n'
    · rw [if_pos newline, newline, Bytes.ofChars_newline, ih]
      simp
    · have none : Bytes.newline ∉ Bytes.ofChars [c] := by
        simpa [Bytes.newline_mem_encode] using newline
      rw [if_neg newline, ih, List.count_eq_zero.mpr none]

theorem after_col {head tail : List Char} (opens : head = [] ∨ ∃ cs, head = cs ++ ['\n'])
    (unbroken : '\n' ∉ tail) : (Pos.after (head ++ tail)).col = tail.length + 1 := by
  induction tail using List.reverseRecOn with
  | nil =>
    rcases opens with rfl | ⟨cs, rfl⟩
    · rfl
    · rw [List.append_nil, after_snoc]
      rfl
  | append_singleton tail c ih =>
    rw [List.mem_append, not_or, List.mem_singleton] at unbroken
    rw [← List.append_assoc, after_snoc, Pos.advance, if_neg (Ne.symm unbroken.2), ih unbroken.1]
    simp

theorem charBytes_encode (cs ds : List Char) :
    File.charBytes cs.length ((cs ++ ds).map fun c => (some c, (String.utf8EncodeChar c).length)) =
      ((Bytes.ofChars cs).length, cs.length) := by
  induction cs with
  | nil => simp [File.charBytes]
  | cons c cs ih =>
    simp only [List.length_cons, List.cons_append, List.map_cons, File.charBytes, ih,
      Bytes.ofChars_cons, List.length_append, Nat.add_comm]

variable {f : File}

theorem byteCol_eq {cs ds : List Char} (cut : f.Cut head (Bytes.ofChars (cs ++ ds)) tail)
    (narrow : (Bytes.ofChars cs).length + 1 < range32) :
    f.byteCol ⟨head.count Bytes.newline + 1, cs.length + 1⟩ =
      ⟨head.count Bytes.newline + 1, (Bytes.ofChars cs).length + 1⟩ := by
  rw [File.byteCol]
  split
  · rename_i first
    have empty : cs = [] := List.eq_nil_of_length_eq_zero (Nat.le_zero.mp (Nat.le_of_succ_le_succ first))
    subst empty
    rfl
  · simp only [cut.line_eq, Bytes.chars_ofChars, Nat.add_sub_cancel, charBytes_encode, Nat.sub_self,
      Nat.add_zero, wrap32, Nat.mod_eq_of_lt narrow]

theorem after_eq {head tail : List Char} (opens : head = [] ∨ ∃ cs, head = cs ++ ['\n'])
    (unbroken : '\n' ∉ tail) :
    Pos.after (head ++ tail) = ⟨(Bytes.ofChars head).count Bytes.newline + 1, tail.length + 1⟩ := by
  have line := after_line (head ++ tail)
  rw [Bytes.ofChars_append, List.count_append,
    List.count_eq_zero.mpr (Bytes.newline_mem_ofChars.not.mpr unbroken)] at line
  exact congrArg₂ Pos.mk line (after_col opens unbroken)

theorem offset_after (fits : f.size < range32) {before rest : List Char}
    (content : f.content = Bytes.ofChars (before ++ rest))
    (words : f.InWords (Bytes.ofChars before).length) :
    f.offset (f.byteCol (Pos.after before)) = (Bytes.ofChars before).length := by
  obtain ⟨head, tail, rfl, unbroken, opens⟩ := last_line '\n' before
  obtain ⟨line, more, rfl, within, ends⟩ := first_line '\n' rest
  have cut : f.Cut (Bytes.ofChars head) (Bytes.ofChars (tail ++ line)) (Bytes.ofChars more) := by
    refine ⟨by simp [content, Bytes.ofChars_append], ?_, ?_, ?_⟩
    · rcases opens with rfl | ⟨ds, rfl⟩
      · exact Or.inl rfl
      · exact Or.inr ⟨Bytes.ofChars ds, by rw [Bytes.ofChars_append, Bytes.ofChars_newline]⟩
    · rw [Bytes.newline_mem_ofChars, List.mem_append, not_or]
      exact ⟨unbroken, within⟩
    · rcases ends with rfl | ⟨ds, rfl⟩
      · exact Or.inl rfl
      · exact Or.inr ⟨Bytes.ofChars ds, rfl⟩
  have size := cut.size
  rw [Bytes.ofChars_append, List.length_append] at words
  have narrow := (((Bytes.ofChars_append tail line ▸ cut).inWords_iff fits).mp words).2
  rw [after_eq opens unbroken, byteCol_eq cut narrow, cut.offset_eq]
  simp only [Bytes.ofChars_append, List.length_append] at size ⊢
  rw [wrap32, Nat.mod_eq_of_lt (by omega)]
  omega

theorem spanOfChars_after {fs : FileSet} {id : Nat} (found : fs.get? id = some f)
    (fits : f.size < range32) {before own rest : List Char}
    (content : f.content = Bytes.ofChars (before ++ own ++ rest))
    (first : f.InWords (Bytes.ofChars before).length)
    (last : f.InWords (Bytes.ofChars (before ++ own)).length) :
    fs.spanOfChars id (Pos.after before) (Pos.after (before ++ own)) =
      ⟨id, (Bytes.ofChars before).length, (Bytes.ofChars (before ++ own)).length⟩ := by
  have longer : (Bytes.ofChars before).length ≤ (Bytes.ofChars (before ++ own)).length := by
    rw [Bytes.ofChars_append, List.length_append]
    omega
  have start : f.offset (f.byteCol (Pos.after before)) = _ :=
    offset_after fits (by rw [content, List.append_assoc]) first
  have stop := offset_after fits content last
  simp only [FileSet.spanOfChars, FileSet.spanOf, found, start, stop, Nat.max_eq_right longer]

theorem spanOfChars_text {fs : FileSet} {id : Nat} (found : fs.get? id = some f)
    {before own rest : String} (content : f.content = Bytes.ofString (before ++ own ++ rest))
    (fits : f.size < range32) (broken : '\n' ∈ before.toList) {c : Char} (solid : c ∈ before.toList)
    (other : c ≠ '\n') :
    fs.spanOfChars id (Pos.after before.toList) (Pos.after (before ++ own).toList) =
      ⟨id, before.utf8ByteSize, before.utf8ByteSize + own.utf8ByteSize⟩ := by
  simp only [Bytes.ofString_eq, String.toList_append] at content ⊢
  have words (off : Nat) : f.InWords off := by
    refine Or.inr ⟨by simp [content, Bytes.newline_mem_ofChars, broken], ?_⟩
    obtain ⟨b, bs, bytes⟩ := List.exists_cons_of_ne_nil (String.utf8EncodeChar_ne_nil (c := c))
    have member : b ∈ String.utf8EncodeChar c := by simp [bytes]
    refine ⟨b, ?_, fun same => other (Bytes.newline_mem_encode.mp (same ▸ member))⟩
    rw [content, Bytes.ofChars]
    exact List.mem_flatMap.mpr ⟨c, by simp [solid], member⟩
  rw [spanOfChars_after found fits content (words _) (words _), Bytes.ofChars_append, List.length_append,
    ← Bytes.ofString_eq, ← Bytes.ofString_eq, Bytes.ofString_length, Bytes.ofString_length]

end Chars

/-- Offsets lead to positions and back, exactly as long as the positions are words. In a text the
positions may count characters: any part of it, also one that is empty or starts or ends at a newline, is
found again from the positions in front of it and behind it. -/
theorem positions_invert {fs : FileSet} {id : Nat} {f : File} (found : fs.get? id = some f)
    (fits : f.size < range32) :
    (∀ a b, a ≤ f.size → b ≤ f.size →
      (f.offset (fs.resolve ⟨id, a, b⟩).1 = a ↔ f.InWords a) ∧
        (f.offset (fs.resolve ⟨id, a, b⟩).2 = b ↔ f.InWords b)) ∧
    ∀ before own rest : List Char, f.content = Bytes.ofChars (before ++ own ++ rest) →
      f.InWords (Bytes.ofChars before).length → f.InWords (Bytes.ofChars (before ++ own)).length →
      fs.spanOfChars id (Pos.after before) (Pos.after (before ++ own)) =
        ⟨id, (Bytes.ofChars before).length, (Bytes.ofChars (before ++ own)).length⟩ := by
  refine ⟨?_, fun before own rest => spanOfChars_after found fits⟩
  intro a b first last
  rw [FileSet.resolve, found]
  exact ⟨offset_posOf_iff fits first, offset_posOf_iff fits last⟩

def Sample.note : File := ⟨"src/note.kl", Bytes.ofString "né\n\nb", {}⟩

open Sample in
theorem note_positions_invert :
    FileSet.get? { files := [note] } 0 = some note ∧ note.size < range32 ∧ note.InWords 3 ∧
      note.offset (FileSet.resolve { files := [note] } ⟨0, 3, 6⟩).1 = 3 ∧
      FileSet.spanOfChars { files := [note] } 0 ⟨1, 2⟩ ⟨2, 1⟩ = ⟨0, 1, 4⟩ := by
  have found : FileSet.get? { files := [note] } 0 = some note := rfl
  have fits : note.size < range32 := by decide
  have word : note.InWords 3 := Or.inl (by decide)
  obtain ⟨back, spans⟩ := positions_invert found fits
  exact ⟨found, fits, word, (back 3 6 (by decide) (by decide)).1.mpr word,
    spans ['n'] ['é', '\n'] ['\n', 'b'] rfl (Or.inl (by decide)) (Or.inl (by decide))⟩

theorem line_end_lost {f : File} (line : Bytes.newline ∉ f.content) (long : f.size = range32 - 1) :
    f.posOf (range32 - 1) = ⟨1, 0⟩ ∧ f.offset ⟨1, 0⟩ = 0 := by
  have cut : f.Cut [] (f.content ++ []) [] := ⟨by simp, Or.inl rfl, by simpa using line, Or.inl rfl⟩
  have place := cut.posOf
  rw [List.length_nil, Nat.zero_add, show f.content.length = range32 - 1 from long] at place
  refine ⟨place, ?_⟩
  simpa [wrap32] using cut.offset_eq 0

/-- One line without an end, as long as a file can be: the column of its end starts again at zero, and
leads back to the front of the line. -/
theorem end_of_line_lost :
    ∃ f : File, f.content = List.replicate (range32 - 1) 120 ∧ f.size = range32 - 1 ∧
      (FileSet.resolve { files := [f] } ⟨0, range32 - 1, range32 - 1⟩).1 = ⟨1, 0⟩ ∧
      f.offset ⟨1, 0⟩ = 0 := by
  obtain ⟨f, content⟩ : ∃ f : File, f.content = List.replicate (range32 - 1) 120 :=
    ⟨⟨"src/line.kl", _, {}⟩, rfl⟩
  have size : f.size = range32 - 1 := by rw [File.size, content, List.length_replicate]
  have line : Bytes.newline ∉ f.content := by
    rw [content]
    exact fun member => absurd (List.eq_of_mem_replicate member) (by decide)
  obtain ⟨place, back⟩ := line_end_lost line size
  exact ⟨f, content, size, place, back⟩

section Clamped

variable {f : File}

theorem exists_cut {n : Nat} (present : n ≤ f.content.count Bytes.newline) :
    ∃ head line tail, f.Cut head line tail ∧ head.count Bytes.newline = n := by
  induction n with
  | zero =>
    obtain ⟨line, tail, split, within, ends⟩ := first_line Bytes.newline f.content
    exact ⟨[], line, tail, ⟨by simpa using split, Or.inl rfl, within, ends⟩, rfl⟩
  | succ n ih =>
    obtain ⟨head, line, tail, cut, counted⟩ := ih (by omega)
    have unbroken := List.count_eq_zero.mpr cut.within
    rcases cut.ends with rfl | ⟨more, rfl⟩
    · rw [cut.content] at present
      simp only [List.append_nil, List.count_append] at present
      omega
    · obtain ⟨next, tail, split, within, ends⟩ := first_line Bytes.newline more
      refine ⟨head ++ line ++ [Bytes.newline], next, tail, ⟨?_, Or.inr ⟨_, rfl⟩, within, ends⟩, ?_⟩
      · simp [cut.content, split]
      · simp [counted, unbroken]

def File.Reaches (f : File) (p : Pos) : Prop :=
  ∀ start, f.lineStart p.line = some start → start + max p.col 1 - 1 < range32

theorem offset_missing (missing : f.content.count Bytes.newline + 1 < p.line) :
    f.offset p = f.size := by
  obtain ⟨line, col⟩ := p
  obtain ⟨n, rfl⟩ : ∃ n, line = n + 2 := ⟨line - 2, by simp only at missing; omega⟩
  have gone : f.lineStart (n + 2) = none := by
    rw [File.lineStart, List.getElem?_eq_none, Option.map_none]
    rw [File.newlines, newlinesFrom_length]
    simp only at missing
    omega
  rw [File.offset, if_neg (by simp), gone]

theorem File.Cut.before {head' line' tail' : Bytes} (cut : f.Cut head line tail)
    (cut' : f.Cut head' line' tail') (less : head.count Bytes.newline < head'.count Bytes.newline) :
    head.length + line.length < head'.length := by
  -- Otherwise `head'` is in front of the end of the line and has at most the newlines of `head`.
  by_contra short
  have part : head' <+: head ++ line := by
    have whole := cut'.content.symm.trans cut.content
    rw [List.append_assoc] at whole
    exact List.prefix_of_prefix_length_le ⟨_, whole⟩ (List.prefix_append _ _)
      (by rw [List.length_append]; omega)
  have count := part.sublist.count_le Bytes.newline
  rw [List.count_append, List.count_eq_zero.mpr cut.within] at count
  omega

theorem line_cases (f : File) (counted : p.line ≠ 0) :
    f.content.count Bytes.newline + 1 < p.line ∨
      ∃ head line tail col, f.Cut head line tail ∧ p = ⟨head.count Bytes.newline + 1, col⟩ := by
  obtain ⟨n, col⟩ := p
  by_cases present : n - 1 ≤ f.content.count Bytes.newline
  · obtain ⟨head, line, tail, cut, lines⟩ := exists_cut present
    have same : n = head.count Bytes.newline + 1 := by
      simp only at counted
      omega
    exact Or.inr ⟨head, line, tail, col, cut, by rw [same]⟩
  · exact Or.inl (by simp only; omega)

theorem File.Cut.offset_le (cut : f.Cut head line tail) (col : Nat) :
    f.offset ⟨head.count Bytes.newline + 1, col⟩ ≤ head.length + line.length := by
  rw [cut.offset_eq]
  exact Nat.min_le_right _ _

theorem File.offset_le (f : File) (p : Pos) : f.offset p ≤ f.size := by
  by_cases zero : p.line = 0
  · rw [offset, if_pos zero]
    exact Nat.zero_le _
  · rcases line_cases f zero with missing | ⟨head, line, tail, col, cut, rfl⟩
    · rw [offset_missing missing]
    · have := cut.offset_le col
      have := cut.size
      omega

theorem File.Cut.reaches_iff (cut : f.Cut head line tail) {col : Nat} :
    f.Reaches ⟨head.count Bytes.newline + 1, col⟩ ↔ head.length + max col 1 - 1 < range32 := by
  simp [File.Reaches, cut.lineStart]

theorem File.Cut.le_offset_iff (cut : f.Cut head line tail) {col : Nat} (word : col < range32) :
    head.length ≤ f.offset ⟨head.count Bytes.newline + 1, col⟩ ↔
      f.Reaches ⟨head.count Bytes.newline + 1, col⟩ := by
  rw [cut.reaches_iff, cut.offset_eq, wrap32]
  constructor
  · intro inside
    by_contra wraps
    have rest := Nat.mod_le (head.length + max col 1 - 1 - range32) range32
    rw [← Nat.mod_eq_sub_mod (by omega)] at rest
    omega
  · intro small
    rw [Nat.mod_eq_of_lt small]
    omega

theorem File.offset_mono {q : Pos} (counted : q.line ≠ 0) (order : p.less q = false)
    (reaches : f.Reaches p) : f.offset q ≤ f.offset p := by
  rw [Pos.less_false_iff] at order
  rcases line_cases f (p := p) (by omega) with missing | ⟨head, line, tail, col, cut, rfl⟩
  · rw [offset_missing missing]
    exact f.offset_le q
  · have small := cut.reaches_iff.mp reaches
    have reached := cut.offset_eq col
    rw [wrap32, Nat.mod_eq_of_lt small] at reached
    rcases order with earlier | ⟨same, left⟩
    · rcases line_cases f counted with missing | ⟨head', line', tail', col', cut', rfl⟩
      · have inside : head.count Bytes.newline ≤ f.content.count Bytes.newline := by
          simp [cut.content]
        simp only at earlier
        omega
      · have := cut'.offset_le col'
        have := cut'.before cut (by simpa using earlier)
        omega
    · obtain ⟨n, col'⟩ := q
      simp only at same left
      have wraps := Nat.mod_le (head.length + max col' 1 - 1) range32
      rw [same, cut.offset_eq, reached, wrap32]
      omega

end Clamped

/-- Where an offset lies. Behind the last line it is the end of the file. It never passes the end of
its line; it is at the start of the line or behind it exactly when the sum of start and column is a
word, and then no position before it has a larger one. -/
theorem offset_kept_in_line (f : File) {p : Pos} (counted : p.line ≠ 0) (word : p.col < range32) :
    (f.content.count Bytes.newline + 1 < p.line → f.offset p = f.size) ∧
    (p.line ≤ f.content.count Bytes.newline + 1 →
      ∃ head line tail, f.Cut head line tail ∧ p.line = head.count Bytes.newline + 1 ∧
        f.offset p ≤ head.length + line.length ∧ (head.length ≤ f.offset p ↔ f.Reaches p)) ∧
    ∀ q : Pos, q.line ≠ 0 → p.less q = false → f.Reaches p → f.offset q ≤ f.offset p := by
  refine ⟨offset_missing, ?_, fun q => File.offset_mono⟩
  intro present
  rcases line_cases f counted with missing | ⟨head, line, tail, col, cut, rfl⟩
  · omega
  · exact ⟨head, line, tail, cut, rfl, cut.offset_le col, cut.le_offset_iff word⟩

open Sample in
theorem note_offset_kept : (⟨1, 9⟩ : Pos).line ≠ 0 ∧ 9 < range32 ∧ note.Reaches ⟨1, 9⟩ ∧
    note.offset ⟨1, 9⟩ = 3 ∧ note.offset ⟨1, 3⟩ ≤ note.offset ⟨1, 9⟩ := by
  have word : (⟨1, 9⟩ : Pos).col < range32 := by decide
  have reaches : note.Reaches ⟨1, 9⟩ := by
    rintro _ ⟨⟩
    decide
  obtain ⟨-, -, mono⟩ := offset_kept_in_line note (p := ⟨1, 9⟩) (by decide) word
  exact ⟨by decide, word, reaches, by decide, mono ⟨1, 3⟩ (by decide) (by decide) reaches⟩

open Sample in
/-- The largest column there is leads from the last line, which starts at byte 5, to byte 3. -/
theorem offset_before_line : note.Cut (Bytes.ofString "né\n\n") (Bytes.ofString "b") [] ∧
    note.offset ⟨3, range32 - 1⟩ = 3 ∧ note.offset ⟨3, 1⟩ = 5 := by
  refine ⟨⟨rfl, Or.inr ⟨Bytes.ofString "né\n", rfl⟩, by decide, Or.inl rfl⟩, ?_, ?_⟩
  · decide
  · decide

end Tenure
