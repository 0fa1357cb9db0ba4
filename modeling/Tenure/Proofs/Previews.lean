import Tenure.Diagnostic.Preview
import Tenure.Proofs.Accounts

/- What a preview shows is what the edit does: the lines that an edit touches are cut out of the file,
   the edit is made in them alone, and the file with the edit has the changed lines in their place. -/
namespace Tenure

namespace Bytes

def firstLines : Nat → Bytes → Bytes
  | 0, _ => []
  | _, [] => []
  | n + 1, b :: bs => b :: firstLines (if b = newline then n else n + 1) bs

/-- The lines of a text without the newlines at its end. An empty text has none. -/
structure Shown (text : Bytes) (ls : List Bytes) : Prop where
  empty : ls = [] ↔ text = []
  unbroken : ∀ l ∈ ls, newline ∉ l
  whole : ∃ k, text = [newline].intercalate ls ++ List.replicate k newline
  trimmed : ([newline].intercalate ls).getLast? ≠ some newline

theorem lines_join (bs : Bytes) :
    lines bs ≠ [] ∧ [newline].intercalate (lines bs) = bs ∧ ∀ l ∈ lines bs, newline ∉ l := by
  induction bs with
  | nil => simp [lines]
  | cons b bs ih =>
    obtain ⟨some, joined, unbroken⟩ := ih
    by_cases here : b = newline
    · rw [lines, if_pos here, List.intercalate_cons_of_ne_nil some, joined, here]
      exact ⟨by simp, rfl, List.forall_mem_cons.mpr ⟨by simp, unbroken⟩⟩
    · obtain ⟨l, ls, found⟩ := List.exists_cons_of_ne_nil some
      rw [found] at joined unbroken
      obtain ⟨first, rest⟩ := List.forall_mem_cons.mp unbroken
      rw [lines, if_neg here, found]
      refine ⟨by simp, ?_, List.forall_mem_cons.mpr ⟨by simp [Ne.symm here, first], rest⟩⟩
      rw [← joined]
      cases ls <;> simp

theorem trimNewlines_split (bs : Bytes) :
    (∃ k, bs = trimNewlines bs ++ List.replicate k newline) ∧
      (trimNewlines bs).getLast? ≠ some newline := by
  constructor
  · refine ⟨(bs.reverse.takeWhile (· == newline)).length, ?_⟩
    have tail : bs.reverse.takeWhile (· == newline) = List.replicate _ newline :=
      List.eq_replicate_iff.mpr ⟨rfl, fun b mem => by simpa using List.mem_takeWhile_imp mem⟩
    rw [← List.reverse_inj, List.reverse_append, List.reverse_replicate, trimNewlines,
      List.reverse_reverse, ← tail, List.takeWhile_append_dropWhile]
  · rw [trimNewlines, List.getLast?_reverse]
    intro last
    have := List.head?_dropWhile_not (· == newline) bs.reverse
    simp [last] at this

theorem pieces_shown (block : Bytes) : Shown block (Preview.pieces block) := by
  unfold Preview.pieces
  split
  · next none =>
    rw [List.isEmpty_iff.mp none]
    exact ⟨by simp, by simp, ⟨0, rfl⟩, by simp⟩
  · next some =>
    obtain ⟨nonempty, joined, unbroken⟩ := lines_join (trimNewlines block)
    obtain ⟨whole, trimmed⟩ := trimNewlines_split block
    exact ⟨iff_of_false nonempty (by simpa using some), unbroken, by rwa [joined], by rwa [joined]⟩

theorem firstLines_take (n : Nat) (bs : Bytes) : firstLines n bs <+: bs := by
  induction bs generalizing n with
  | nil => cases n <;> simp [firstLines]
  | cons b bs ih => cases n <;> simp [firstLines, ih]

theorem firstLines_mono {m n : Nat} (le : m ≤ n) (bs : Bytes) :
    firstLines m bs <+: firstLines n bs := by
  induction bs generalizing m n with
  | nil => cases m <;> simp [firstLines]
  | cons b bs ih =>
    cases m with
    | zero => simp [firstLines]
    | succ m =>
      obtain ⟨n, rfl⟩ := Nat.exists_eq_add_of_le' (Nat.le_trans (Nat.succ_pos m) le)
      simp only [firstLines, List.prefix_cons_inj]
      apply ih
      split <;> omega

theorem firstLines_length (k n : Nat) (bs : Bytes) :
    ((newlinesFrom k bs)[n]?.map (· + 1)).getD (k + bs.length) = k + (firstLines (n + 1) bs).length := by
  induction bs generalizing k n with
  | nil => simp [newlinesFrom, firstLines]
  | cons b bs ih =>
    have next := ih (k + 1)
    simp only [Nat.add_assoc, Nat.add_comm 1] at next
    rw [newlinesFrom, firstLines]
    split
    · cases n with
      | zero => simp [firstLines]
      | succ n => simpa using next n
    · simpa using next n

theorem splice_within {before block after : Bytes} {i j : Nat} (new : Bytes) (starts : before.length ≤ i)
    (ordered : i ≤ j) (stops : j ≤ before.length + block.length) :
    (before ++ block ++ after).take i ++ new ++ (before ++ block ++ after).drop j =
      before ++ (block.take (i - before.length) ++ new ++ block.drop (j - before.length)) ++ after := by
  rw [List.append_assoc before, List.take_append, List.drop_append, List.take_of_length_le starts,
    List.drop_of_length_le (Nat.le_trans starts ordered), List.take_append_of_le_length (by omega),
    List.drop_append_of_le_length (by omega)]
  simp

end Bytes

open Bytes

def Edit.place (fs : FileSet) (e : Edit) : Span := fs.spanOf e.range.file e.range.start e.range.stop

def Edit.Expected (fs : FileSet) (f : File) (e : Edit) : Prop :=
  e.expect.isEmpty = true ∨
    (f.content.take (e.place fs).stop).drop (e.place fs).start = ofString e.expect

namespace Preview

theorem blockStop_eq (f : File) (line : Nat) :
    blockStop f line = (firstLines line f.content).length := by
  cases line with
  | zero => simp [blockStop, firstLines]
  | succ n =>
    have behind := firstLines_length 0 n f.content
    simpa [blockStop, File.lineStart, File.newlines, File.size] using behind

theorem blockStart_eq (f : File) (line : Nat) :
    blockStart f line = (firstLines (line - 1) f.content).length := by
  rw [← blockStop_eq]
  match line with
  | 0 | 1 | _ + 2 => rfl

/-- The lines from the first to the last of a region, between what stands before and behind them. -/
structure Block (f : File) (r : Range) (before block after : Bytes) : Prop where
  content : f.content = before ++ block ++ after
  starts : before = firstLines (r.start.line - 1) f.content
  stops : before ++ block = firstLines (max r.stop.line r.start.line) f.content

theorem exists_block (f : File) (r : Range) : ∃ before block after, Block f r before block after := by
  have upto : r.start.line - 1 ≤ max r.stop.line r.start.line := by omega
  obtain ⟨block, cut⟩ := firstLines_mono upto f.content
  obtain ⟨after, whole⟩ := firstLines_take (max r.stop.line r.start.line) f.content
  exact ⟨_, block, after, by rw [cut, whole], rfl, cut⟩

theorem of?_block {fs : FileSet} {e : Edit} {f : File} {p : Preview} {before block after : Bytes}
    (known : fs.get? e.range.file = some f) (here : Block f e.range before block after)
    (shown : of? fs e = some p) : Shown block p.before ∧ ∃ new, Shown new p.after ∧
      f.content.take (e.place fs).start ++ ofString e.newText ++ f.content.drop (e.place fs).stop =
        before ++ new ++ after := by
  have start : blockStart f e.range.start.line = before.length := by rw [blockStart_eq, here.starts]
  have stop : max (blockStop f (max e.range.stop.line e.range.start.line)) before.length =
      before.length + block.length := by
    rw [blockStop_eq, ← here.stops, List.length_append]
    exact Nat.max_eq_left (Nat.le_add_right _ _)
  have ordered : (e.place fs).start ≤ (e.place fs).stop := by
    simp only [Edit.place, FileSet.spanOf, known]
    exact Nat.le_max_left _ _
  have place : fs.spanOf e.range.file e.range.start e.range.stop = e.place fs := rfl
  simp only [of?, known, start, stop, place] at shown
  split at shown
  · cases shown
  · next inside =>
    obtain ⟨starts, stops⟩ := not_or.mp inside
    have cut : (f.content.drop before.length).take (before.length + block.length - before.length) =
        block := by
      rw [here.content, List.append_assoc, List.drop_left, Nat.add_sub_cancel_left, List.take_left]
    rw [cut] at shown
    cases shown
    refine ⟨pieces_shown block, _, pieces_shown _, ?_⟩
    rw [here.content]
    exact splice_within _ (Nat.not_lt.mp starts) ordered (Nat.not_lt.mp stops)

end Preview

theorem Buffer.patch_single {bs : Bytes} {p : Patch} (ordered : p.start ≤ p.stop)
    (inside : p.stop ≤ bs.length) : ∃ b, (ofContent bs).patch [p] = some b ∧ b.edits = 1 ∧
      b.working = bs.take p.start ++ p.text ++ bs.drop p.stop := by
  simp [patch, splice, shift, ofContent, ordered, inside]

namespace Repair.Shop

variable {s : Shop} {e : Edit} {f : File}

theorem patchFor_expected (known : s.files.get? e.range.file = some f)
    (expected : e.Expected s.files f) (path : String) :
    patchFor (Buffer.ofContent f.content) path e =
      .ok ⟨(e.place s.files).start, (e.place s.files).stop, ofString e.newText⟩ := by
  have same : e.place s.files = ⟨e.range.file, f.offset e.range.start,
      max (f.offset e.range.start) (f.offset e.range.stop)⟩ := by
    simp only [Edit.place, FileSet.spanOf, known]
  rw [Edit.Expected, same] at expected
  rw [same]
  refine if_neg ?_
  rw [Bool.and_eq_true, Bool.not_eq_true', bne_iff_ne]
  rintro ⟨some, other⟩
  rcases expected with none | equal
  · exact Bool.noConfusion (some.symm.trans none)
  · exact other equal

theorem apply_single {fix : Fix} (single : fix.edits = [e])
    (known : s.files.get? e.range.file = some f) (own : f.flags.isGenerated = false)
    (stored : s.read (s.target f) = some f.content) (expected : e.Expected s.files f) :
    ∃ b, s.apply [] fix = .ok [(e.range.file, b)] ∧ b.edits = 1 ∧
      b.working = f.content.take (e.place s.files).start ++ ofString e.newText ++
        f.content.drop (e.place s.files).stop := by
  have opened : s.bufferFor [] e.range.file = .ok (Buffer.ofContent f.content) := by
    simp [bufferFor, openFile, known, own, stored]
  have made := patchFor_expected known expected (s.pathOf e.range.file)
  obtain ⟨ordered, inside⟩ := patchFor_bounds made
  obtain ⟨b, patched, edits, working⟩ := @Buffer.patch_single f.content _ ordered inside
  have applied : s.applyTo [] e.range.file [e] = .ok [(e.range.file, b)] := by
    have room : ∀ p, (Buffer.ofContent f.content).admits [p] = true := fun _ => rfl
    simp only [applyTo, opened, List.mapM_cons, List.mapM_nil, bind, Except.bind, made, pure,
      Except.pure, room, patched]
    rfl
  refine ⟨b, ?_, edits, working⟩
  have files : filesOf fix = [e.range.file] := by rw [filesOf, single]; rfl
  rw [apply, files, single, List.foldlM_cons, List.filter_cons_of_pos (by simp), List.filter_nil,
    applied]
  rfl

/-- A fix with one edit that has a preview changes the file as the preview shows: what stands before
and behind the touched lines stays, these lines are shown first, and what stands in their place
afterwards is shown next. -/
theorem preview_agrees {ds : List Diagnostic} {choice : Choice} {c : Candidate} {p : Preview}
    (picked : (s.picked ds choice false).1 = [c]) (single : c.fix.edits = [e])
    (known : s.files.get? e.range.file = some f) (own : f.flags.isGenerated = false)
    (stored : s.read (s.target f) = some f.content) (expected : e.Expected s.files f)
    (shown : Preview.of? s.files e = some p) : ∃ before block after new,
      Preview.Block f e.range before block after ∧ Shown block p.before ∧ Shown new p.after ∧
      (s.run ds choice false).applied = [⟨c, 1⟩] ∧
      (s.run ds choice false).changes =
        [⟨s.pathOf e.range.file, s.target f, 1, before ++ new ++ after⟩] := by
  obtain ⟨before, block, after, here⟩ := Preview.exists_block f e.range
  obtain ⟨first, new, next, became⟩ := Preview.of?_block known here shown
  obtain ⟨b, done, edits, working⟩ := apply_single single known own stored expected
  have step : s.step { skipped := (s.picked ds choice false).2 } c =
      ⟨[(e.range.file, b)], [⟨c, 1⟩], (s.picked ds choice false).2⟩ := by
    simp [Shop.step, done, single]
  obtain ⟨applied, -, changes⟩ := s.run_eq ds choice false
  rw [progress, picked, List.foldl_cons, List.foldl_nil, step] at applied changes
  refine ⟨before, block, after, new, here, first, next, applied, changes.trans ?_⟩
  simp [Shop.changes, edits, known, working, became]

end Repair.Shop

namespace Repair.Sample

def drawer : Shop where
  files := (FileSet.addVirtual {} "a" (ofString "ab\ncd\nef")).1
  read := fun _ => some (ofString "ab\ncd\nef")
  root := ""

def joining : Fix := .replace "join" ⟨0, ⟨1, 2⟩, ⟨2, 2⟩⟩ "X" "b\nc"

def joined : Diagnostic :=
  { code := .immutableAssign, message := "", primary := .zero, fixes := [joining] }

theorem joining_agrees : ∃ before block after new,
    Preview.Block (drawer.files.files.headD default) ⟨0, ⟨1, 2⟩, ⟨2, 2⟩⟩ before block after ∧
    Shown block [ofString "ab", ofString "cd"] ∧ Shown new [ofString "aXd"] ∧
    (drawer.run [joined] .all false).applied = [⟨candidate drawer.files (joined, 0, joining), 1⟩] ∧
    (drawer.run [joined] .all false).changes =
      [⟨drawer.pathOf 0, drawer.target (drawer.files.files.headD default), 1, before ++ new ++ after⟩] :=
  Shop.preview_agrees (e := ⟨⟨0, ⟨1, 2⟩, ⟨2, 2⟩⟩, "X", "b\nc"⟩)
    (p := ⟨[ofString "ab", ofString "cd"], [ofString "aXd"]⟩)
    (by simp [Shop.picked, candidatesFrom, proposals, joined, joining, Fix.replace, select, candidate])
    rfl rfl rfl rfl (.inr (by decide +kernel)) (by decide +kernel)

end Repair.Sample

end Tenure
