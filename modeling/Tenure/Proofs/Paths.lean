import Tenure.Source.FileSet

/- Cleaning a path twice is cleaning it once. The elements of a cleaned path are its elements again
   when it is cut at its slashes, and none of them is dropped. The files of a compilation therefore
   stand under paths that cleaning leaves alone. -/
namespace Tenure

namespace Text

theorem splitOn_cons (c d : Char) (ds : List Char) : (d :: ds).splitOn c =
    if d = c then [] :: ds.splitOn c else (ds.splitOn c).modifyHead (d :: ·) := by
  simp only [List.splitOn, List.splitOnP_cons_eq_if_modifyHead, beq_iff_eq]

theorem splitAt_eq_splitOn (c : Char) (fuel : Nat) (cs : List Char) (enough : cs.length < fuel) :
    splitAt [c] fuel cs = cs.splitOn c := by
  induction fuel generalizing cs with
  | zero => exact absurd enough (Nat.not_lt_zero _)
  | succ fuel ih =>
    cases cs with
    | nil => simp [splitAt]
    | cons d ds =>
      have tail := ih ds (Nat.lt_of_succ_lt_succ enough)
      have cut : ds.splitOn c ≠ [] := List.splitOn_ne_nil c ds
      rw [splitAt, splitOn_cons]
      by_cases mark : d = c
      · subst mark
        simp [tail]
      · simp only [List.isPrefixOf, Bool.and_true, beq_iff_eq, Ne.symm mark, if_false, mark, tail]
        cases pieces : ds.splitOn c with
        | nil => exact absurd pieces cut
        | cons piece pieces => rfl

theorem splitOn_char {mark : String} {c : Char} (single : mark.toList = [c]) (s : String) :
    splitOn mark s = (s.toList.splitOn c).map String.ofList := by
  rw [splitOn, single, splitAt_eq_splitOn c _ _ (Nat.lt_succ_of_le (Nat.le_of_eq String.length_toList))]

theorem splitOn_slash (s : String) : splitOn "/" s = (s.toList.splitOn '/').map String.ofList :=
  splitOn_char rfl s

theorem not_mem_of_splitOn (c : Char) (cs piece : List Char) (mem : piece ∈ cs.splitOn c) :
    c ∉ piece := by
  induction cs generalizing piece with
  | nil => simp_all
  | cons d ds ih =>
    rw [splitOn_cons] at mem
    split at mem
    · rcases List.mem_cons.mp mem with rfl | mem
      · exact List.not_mem_nil
      · exact ih piece mem
    · rename_i other
      cases pieces : ds.splitOn c with
      | nil =>
        rw [pieces] at mem
        cases mem
      | cons first rest =>
        rw [pieces] at mem ih
        rcases List.mem_cons.mp mem with rfl | mem
        · exact List.not_mem_cons_of_ne_of_not_mem (Ne.symm other) (ih first List.mem_cons_self)
        · exact ih piece (List.mem_cons_of_mem first mem)

end Text

namespace Path

/-- Elements that name a file or a directory, last first. Steps up stand at the start of a path that
has no root, and nowhere else. -/
def Settled (rooted : Bool) : List String → Prop
  | [] => True
  | e :: rest => e ≠ "." ∧ (e = ".." → rooted = false ∧ ∀ x ∈ rest, x = "..") ∧ Settled rooted rest

variable {rooted : Bool} {acc es : List String} {e : String}

theorem pushElement_settled (settled : Settled rooted acc)
    (e : String) : Settled rooted (pushElement rooted acc e) := by
  unfold pushElement
  split
  · exact settled
  split
  · subst e
    split
    · cases rooted
      · exact ⟨by decide, fun _ => ⟨rfl, nofun⟩, trivial⟩
      · trivial
    · split
      · rename_i top rest up
        subst up
        obtain ⟨-, ups, -⟩ := id settled
        obtain ⟨free, all⟩ := ups rfl
        exact ⟨by decide, fun _ => ⟨free, by simpa using all⟩, settled⟩
      · exact settled.2.2
  · exact ⟨‹_›, fun up => absurd up ‹_›, settled⟩

theorem foldl_settled (es : List String)
    (settled : Settled rooted acc) : Settled rooted (es.foldl (pushElement rooted) acc) := by
  induction es generalizing acc with
  | nil => exact settled
  | cons e es ih => exact ih (pushElement_settled settled e)

theorem foldl_reverse (settled : Settled rooted acc) :
    acc.reverse.foldl (pushElement rooted) [] = acc := by
  induction acc with
  | nil => rfl
  | cons e rest ih =>
    obtain ⟨named, ups, behind⟩ := settled
    rw [List.reverse_cons, List.foldl_append, ih behind, List.foldl_cons, List.foldl_nil]
    unfold pushElement
    rw [if_neg named]
    by_cases up : e = ".."
    · obtain ⟨free, all⟩ := ups up
      cases rest with
      | nil => simp [free, up]
      | cons top rest => simp [all top List.mem_cons_self, up]
    · rw [if_neg up]

theorem cleanElements_settled (p : String) : Settled (isAbs p) (cleanElements p).reverse := by
  rw [cleanElements, List.reverse_reverse]
  exact foldl_settled _ trivial

def Solid (e : String) : Prop := e ≠ "" ∧ '/' ∉ e.toList

theorem elements_solid (p : String) : ∀ e ∈ elements p, Solid e := by
  intro e mem
  obtain ⟨piece, nonempty⟩ := List.mem_filter.mp mem
  rw [Text.splitOn_slash] at piece
  obtain ⟨cs, cut, rfl⟩ := List.mem_map.mp piece
  constructor
  · simpa [String.isEmpty_iff] using nonempty
  · rw [String.toList_ofList]
    exact Text.not_mem_of_splitOn '/' p.toList cs cut

theorem mem_pushElement {x : String} (mem : x ∈ pushElement rooted acc e) : x ∈ acc ∨ x = e := by
  unfold pushElement at mem
  grind

theorem cleanElements_solid (p : String) : ∀ e ∈ cleanElements p, Solid e := by
  have kept (es acc : List String) : ∀ x ∈ es.foldl (pushElement (isAbs p)) acc, x ∈ acc ∨ x ∈ es := by
    induction es generalizing acc with
    | nil => exact fun x mem => .inl mem
    | cons e es ih =>
      intro x mem
      rcases ih _ x mem with early | late
      · rcases mem_pushElement early with old | rfl
        · exact .inl old
        · exact .inr List.mem_cons_self
      · exact .inr (List.mem_cons_of_mem e late)
  intro e mem
  rw [cleanElements, List.mem_reverse] at mem
  rcases kept _ _ e mem with none | mem
  · cases none
  · exact elements_solid p e mem

theorem elements_joined (solid : ∀ e ∈ es, Solid e) : elements ("/".intercalate es) = es := by
  cases es with
  | nil => decide
  | cons e es =>
    have slash : "/".toList = ['/'] := rfl
    have apart : ∀ l ∈ (e :: es).map String.toList, '/' ∉ l := by
      intro l mem
      obtain ⟨x, kept, rfl⟩ := List.mem_map.mp mem
      exact (solid x kept).2
    have same : String.ofList ∘ String.toList = id := funext fun s => String.ofList_toList
    rw [elements, Text.splitOn_slash, String.toList_intercalate, slash,
      List.splitOn_intercalate '/' apart (List.cons_ne_nil _ _), List.map_map, same, List.map_id]
    apply List.filter_eq_self.mpr
    intro x mem
    simpa [String.isEmpty_iff] using (solid x mem).1

theorem elements_slash (s : String) : elements ("/" ++ s) = elements s := by
  have slash : "/".toList = ['/'] := rfl
  rw [elements, elements, Text.splitOn_slash, Text.splitOn_slash, String.toList_append, slash,
    List.singleton_append, Text.splitOn_cons, if_pos rfl]
  rfl

theorem isAbs_slash (s : String) : isAbs ("/" ++ s) = true := by
  simp [isAbs, Text.startsWith]

theorem joined_head (solid : Solid e) (es : List String) :
    ∃ c cs, ("/".intercalate (e :: es)).toList = c :: cs ∧ c ≠ '/' := by
  obtain ⟨nonempty, apart⟩ := solid
  obtain ⟨c, cs, text⟩ := List.exists_cons_of_ne_nil fun none =>
    nonempty (String.toList_eq_nil_iff.mp none)
  rw [text] at apart
  have other : c ≠ '/' := fun slash => apart (slash ▸ List.mem_cons_self)
  cases es with
  | nil => exact ⟨c, cs, by rw [String.intercalate_singleton, text], other⟩
  | cons f fs =>
    rw [String.intercalate_cons_cons, String.toList_append, String.toList_append, text]
    exact ⟨c, _, rfl, other⟩

theorem isAbs_joined (solid : Solid e) (es : List String) :
    isAbs ("/".intercalate (e :: es)) = false := by
  obtain ⟨c, cs, text, other⟩ := joined_head solid es
  simp [isAbs, Text.startsWith, List.isPrefixOf, text, Ne.symm other]

theorem cleanElements_eq {q : String} (parts : elements q = es)
    (settled : Settled (isAbs q) es.reverse) : cleanElements q = es := by
  have kept := foldl_reverse settled
  rw [List.reverse_reverse] at kept
  rw [cleanElements, parts, kept, List.reverse_reverse]

theorem clean_clean (p : String) : clean (clean p) = clean p := by
  have settled := cleanElements_settled p
  have solid := cleanElements_solid p
  generalize same : clean p = q
  rw [clean] at same
  generalize cleanElements p = es at *
  cases rooted : isAbs p with
  | true =>
    rw [rooted, if_pos rfl] at same
    rw [rooted] at settled
    subst same
    have whole : cleanElements ("/" ++ "/".intercalate es) = es :=
      cleanElements_eq ((elements_slash _).trans (elements_joined solid)) (by rwa [isAbs_slash])
    simp only [clean, isAbs_slash, whole, if_true]
  | false =>
    rw [rooted, if_neg Bool.false_ne_true] at same
    rw [rooted] at settled
    cases es with
    | nil =>
      subst same
      decide
    | cons e es =>
      subst same
      have free := isAbs_joined (solid e List.mem_cons_self) es
      have whole : cleanElements ("/".intercalate (e :: es)) = e :: es :=
        cleanElements_eq (elements_joined solid) (by rwa [free])
      simp [clean, free, whole]

theorem clean_ne_empty (p : String) : clean p ≠ "" := by
  have solid := cleanElements_solid p
  rw [clean]
  generalize cleanElements p = es at *
  intro none
  have none := congrArg String.toList none
  split at none
  · simp at none
  · cases es with
    | nil => exact absurd none (by decide)
    | cons e es =>
      obtain ⟨c, cs, text, -⟩ := joined_head (solid e List.mem_cons_self) es
      simp only [List.isEmpty_cons, Bool.false_eq_true, if_false, text] at none
      cases none

end Path

namespace FileSet

theorem normalPath_normalPath (p : String) : normalPath (normalPath p) = normalPath p := by
  unfold normalPath
  split
  · rfl
  · rw [if_neg (by simpa [String.isEmpty_iff] using Path.clean_ne_empty p), Path.clean_clean]

inductive Built : FileSet → Prop where
  | none (fs : FileSet) : fs.files = [] → Built fs
  | add {fs : FileSet} (path : String) (content : Bytes) (flags : FileFlags) :
      Built fs → Built (fs.add path content flags).1

theorem Built.normal {fs : FileSet} (built : fs.Built) :
    ∀ f ∈ fs.files, normalPath f.path = f.path := by
  induction built with
  | none fs empty =>
    intro f mem
    rw [empty] at mem
    cases mem
  | add path content flags _ ih =>
    intro f mem
    rcases List.mem_append.mp mem with old | new
    · exact ih f old
    · cases List.mem_singleton.mp new
      exact normalPath_normalPath path

end FileSet

end Tenure
