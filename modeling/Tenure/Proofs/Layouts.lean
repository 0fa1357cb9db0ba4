import Mathlib.Data.List.Perm.Basic
import Tenure.Backend.Layout
import Tenure.Proofs.Association

/- Where declarations stand in a generated file. Every struct and every function with a body has one
   place there, and the functions of one owner stand together. -/
namespace Tenure

namespace Piece

def func? : Piece → Option FuncDecl
  | .func f _ => some f
  | _ => none

def struct? : Piece → Option StructDecl
  | .struct s => some s
  | _ => none

end Piece

namespace Layout

variable {m : Module} {owner : String}

/-! ### Blocks -/

theorem methodPieces_eq (fs : List FuncDecl) :
    methodPieces fs = (fs.map (Piece.func · 1)).intersperse (.text "\n") := by
  fun_induction methodPieces fs with
  | case1 => rfl
  | case2 f => rfl
  | case3 f fs some ih =>
    obtain ⟨g, rest, rfl⟩ := List.exists_cons_of_ne_nil some
    rw [ih]
    rfl

section Filtered

variable {β : Type} {g : Piece → Option β} (quiet : ∀ s, g (.text s) = none)
include quiet

theorem methodPieces_filterMap (fs : List FuncDecl) :
    (methodPieces fs).filterMap g = fs.filterMap fun f => g (.func f 1) := by
  fun_induction methodPieces fs with
  | case1 => rfl
  | case2 f => rfl
  | case3 f fs _ ih => simp [List.filterMap_cons, quiet, ih]

theorem implBlock_filterMap (m : Module) (owner : String) :
    (implBlock m owner).filterMap g = (methodsOf m owner).filterMap fun f => g (.func f 1) := by
  unfold implBlock
  split
  · rename_i none
    rw [none, List.filterMap_nil, List.filterMap_nil]
  · simp [quiet, methodPieces_filterMap quiet]

end Filtered

theorem implBlock_structs (m : Module) (owner : String) :
    (implBlock m owner).filterMap Piece.struct? = [] := by
  rw [implBlock_filterMap fun _ => rfl]
  exact List.filterMap_none _

theorem implBlock_funcs (m : Module) (owner : String) :
    (implBlock m owner).filterMap Piece.func? = methodsOf m owner := by
  rw [implBlock_filterMap fun _ => rfl]
  exact List.filterMap_some

theorem free_funcs (m : Module) :
    ((free m).flatMap fun f => [Piece.func f 0, .text "\n"]).filterMap Piece.func? = free m := by
  rw [List.filterMap_flatMap]
  exact List.flatMap_singleton' _

/-! ### Structs -/

theorem structPieces_structs (seen : List String) (ss : List StructDecl) :
    (structPieces m seen ss).filterMap Piece.struct? = ss := by
  induction ss generalizing seen with
  | nil => rfl
  | cons s ss ih =>
    have rest : ((if seen.contains s.name then [] else implBlock m s.name) ++
        structPieces m (s.name :: seen) ss).filterMap Piece.struct? = ss := by
      rw [List.filterMap_append, ih]
      split
      · rfl
      · rw [implBlock_structs, List.nil_append]
    exact congrArg (s :: ·) rest

theorem structPieces_append (seen : List String) (ss ts : List StructDecl) :
    structPieces m seen (ss ++ ts) =
      structPieces m seen ss ++ structPieces m ((ss.map (·.name)).reverse ++ seen) ts := by
  induction ss generalizing seen with
  | nil => rfl
  | cons s ss ih => simp [structPieces, ih]

def tail (m : Module) : List Piece :=
  ((owners m).filter fun o => !(m.structs.map (·.name)).contains o).flatMap (implBlock m) ++
    (free m).flatMap fun f => [.func f 0, .text "\n"]

theorem layout_eq (m : Module) : m.layout = structPieces m [] m.structs ++ tail m := by
  rw [Module.layout, tail, List.append_assoc]

theorem tail_structs (m : Module) : (tail m).filterMap Piece.struct? = [] := by
  simp [tail, List.filterMap_flatMap, implBlock_structs, Piece.struct?]

/-! ### Functions -/

def ownedBy (m : Module) (owner : String) : List FuncDecl :=
  (m.funcs.filter (!·.isExtern)).filter (·.owner == owner)

theorem ownedBy_filter (m : Module) (o owner : String) :
    (ownedBy m o).filter (·.owner == owner) = if o = owner then ownedBy m owner else [] := by
  by_cases same : o = owner
  · rw [if_pos same, same, List.filter_eq_self]
    exact fun f member => (List.mem_filter.mp member).2
  · rw [if_neg same, List.filter_eq_nil_iff]
    intro f member
    have owned := beq_iff_eq.mp (List.mem_filter.mp member).2
    simpa [owned] using same

theorem free_eq (m : Module) : free m = ownedBy m "" := by
  apply List.filter_congr
  intro f _
  rw [Bool.eq_iff_iff, String.isEmpty_iff, beq_iff_eq]

theorem methodsOf_eq (m : Module) (owner : String) :
    methodsOf m owner = if owner = "" then [] else ownedBy m owner := by
  by_cases nameless : owner = ""
  · rw [if_pos nameless, methodsOf, List.filter_eq_nil_iff]
    intro f _
    simp [nameless]
  · rw [if_neg nameless]
    apply List.filter_congr
    intro f _
    by_cases same : f.owner = owner
    · simp [same, nameless]
    · simp [same]

theorem implBlock_owned (m : Module) (o owner : String) :
    ((implBlock m o).filterMap Piece.func?).filter (·.owner == owner) =
      if o = owner then methodsOf m owner else [] := by
  rw [implBlock_funcs, methodsOf_eq, methodsOf_eq]
  have mine := ownedBy_filter m o owner
  grind

theorem structPieces_owned (seen : List String) (ss : List StructDecl) (owner : String) :
    ((structPieces m seen ss).filterMap Piece.func?).filter (·.owner == owner) =
      if owner ∈ ss.map (·.name) ∧ owner ∉ seen then methodsOf m owner else [] := by
  induction ss generalizing seen with
  | nil => simp [structPieces]
  | cons s ss ih =>
    rw [structPieces, List.cons_append, List.filterMap_cons_none rfl, List.filterMap_append,
      List.filter_append, ih]
    by_cases known : s.name ∈ seen
    · rw [if_pos (List.contains_iff_mem.mpr known)]
      grind
    · rw [if_neg (by simpa using known), implBlock_owned]
      grind

theorem blocks_owned {os : List String} (distinct : os.Nodup) (owner : String) :
    ((os.flatMap (implBlock m)).filterMap Piece.func?).filter (·.owner == owner) =
      if owner ∈ os then methodsOf m owner else [] := by
  induction os with
  | nil => rfl
  | cons o os ih =>
    obtain ⟨fresh, distinct⟩ := List.nodup_cons.mp distinct
    rw [List.flatMap_cons, List.filterMap_append, List.filter_append, implBlock_owned, ih distinct]
    grind

theorem mem_owners (named : owner ≠ "") (some : ownedBy m owner ≠ []) : owner ∈ owners m := by
  obtain ⟨f, member⟩ := List.exists_mem_of_ne_nil _ some
  obtain ⟨there, same⟩ := List.mem_filter.mp member
  obtain rfl := beq_iff_eq.mp same
  rw [owners, List.mem_eraseDups, List.mem_filter]
  exact ⟨List.mem_map_of_mem there, by simpa using named⟩

theorem layout_owned (m : Module) (owner : String) :
    (m.layout.filterMap Piece.func?).filter (·.owner == owner) = ownedBy m owner := by
  have distinct : ((owners m).filter fun o => !(m.structs.map (·.name)).contains o).Nodup :=
    (eraseDups_nodup _).filter _
  have known : owner ≠ "" → ownedBy m owner ≠ [] → owner ∈ owners m := mem_owners
  rw [Module.layout, List.filterMap_append, List.filterMap_append, List.filter_append,
    List.filter_append, structPieces_owned, blocks_owned distinct, free_funcs, free_eq,
    ownedBy_filter, methodsOf_eq]
  grind

theorem layout_structs (m : Module) : m.layout.filterMap Piece.struct? = m.structs := by
  rw [layout_eq, List.filterMap_append, structPieces_structs, tail_structs, List.append_nil]

theorem layout_funcs (m : Module) : (m.layout.filterMap Piece.func?).Perm (written m) := by
  classical
  rw [List.perm_iff_count]
  intro f
  have same := congrArg (List.count f) (layout_owned m f.owner)
  rwa [ownedBy, List.count_filter (by simp), List.count_filter (by simp)] at same

theorem struct_placed {s : StructDecl} : .struct s ∈ m.layout ↔ s ∈ m.structs := by
  rw [← layout_structs m, List.mem_filterMap]
  constructor
  · exact fun placed => ⟨_, placed, rfl⟩
  · rintro ⟨p, placed, struct⟩
    cases p <;> cases struct
    exact placed

theorem func_placed {f : FuncDecl} : (∃ depth, .func f depth ∈ m.layout) ↔ f ∈ written m := by
  rw [← (layout_funcs m).mem_iff, List.mem_filterMap]
  constructor
  · rintro ⟨depth, placed⟩
    exact ⟨_, placed, rfl⟩
  · rintro ⟨p, placed, func⟩
    cases p <;> cases func
    exact ⟨_, placed⟩

/-! ### Places -/

def block (owner : String) (fs : List FuncDecl) : List Piece :=
  .text ("impl " ++ owner ++ " \x7b\n") :: (fs.map (Piece.func · 1)).intersperse (.text "\n") ++
    [.text "\x7d\n\n"]

theorem implBlock_eq (named : owner ≠ "") (some : ownedBy m owner ≠ []) :
    implBlock m owner = block owner (ownedBy m owner) := by
  obtain ⟨f, fs, shape⟩ := List.exists_cons_of_ne_nil some
  rw [implBlock, methodsOf_eq, if_neg named, shape, block, ← methodPieces_eq]

theorem none_elsewhere {before middle after : List Piece} (whole : m.layout = before ++ middle ++ after)
    (all : middle.filterMap Piece.func? = ownedBy m owner) :
    ∀ f ∈ before.filterMap Piece.func? ++ after.filterMap Piece.func?, f.owner ≠ owner := by
  have sizes := congrArg List.length (layout_owned m owner)
  simp only [whole, List.filterMap_append, List.filter_append, all, ownedBy_filter, if_true,
    List.length_append] at sizes
  have nothing : (before.filterMap Piece.func? ++ after.filterMap Piece.func?).filter
      (·.owner == owner) = [] := by
    apply List.eq_nil_of_length_eq_zero
    rw [List.filter_append, List.length_append]
    omega
  intro f member same
  exact List.filter_eq_nil_iff.mp nothing f member (beq_iff_eq.mpr same)

/-- All functions of the owner stand in one block: directly behind the first struct of that name, or, if
there is none, behind all structs. -/
structure Gathered (m : Module) (owner : String) (before after : List Piece) : Prop where
  whole : m.layout = before ++ block owner (ownedBy m owner) ++ after
  only : ∀ f ∈ before.filterMap Piece.func? ++ after.filterMap Piece.func?, f.owner ≠ owner
  place : (∃ front s, before = front ++ [.struct s] ∧ s.name = owner ∧
      ∀ t ∈ front.filterMap Piece.struct?, t.name ≠ owner) ∨
    (∀ s ∈ m.structs, s.name ≠ owner) ∧ after.filterMap Piece.struct? = []

theorem gathered (named : owner ≠ "") (some : ownedBy m owner ≠ []) :
    ∃ before after, Gathered m owner before after := by
  -- the block of the model with what stands around it decides where the functions are
  have placed {before after : List Piece} (whole : m.layout = before ++ implBlock m owner ++ after) :
      m.layout = before ++ block owner (ownedBy m owner) ++ after ∧
        ∀ f ∈ before.filterMap Piece.func? ++ after.filterMap Piece.func?, f.owner ≠ owner := by
    refine ⟨by rw [whole, implBlock_eq named some], none_elsewhere whole ?_⟩
    rw [implBlock_funcs, methodsOf_eq, if_neg named]
  by_cases declared : ∃ s ∈ m.structs, s.name = owner
  · obtain ⟨s, found⟩ : ∃ s, m.structs.find? (·.name == owner) = Option.some s := by
      rw [← Option.isSome_iff_exists, List.find?_isSome]
      simpa using declared
    obtain ⟨name, front, back, structs, others⟩ := List.find?_eq_some_iff_append.mp found
    obtain rfl := beq_iff_eq.mp name
    have unseen : ¬ (front.map (·.name)).reverse.contains s.name = true := by
      simpa using others
    have whole : m.layout = structPieces m [] front ++ [.struct s] ++ implBlock m s.name ++
        (structPieces m (s.name :: (front.map (·.name)).reverse) back ++ tail m) := by
      rw [layout_eq, structs, structPieces_append, List.append_nil,
        structPieces, if_neg unseen]
      simp only [List.append_assoc, List.cons_append, List.nil_append]
    obtain ⟨whole, only⟩ := placed whole
    refine ⟨_, _, whole, only, .inl ⟨_, s, rfl, rfl, ?_⟩⟩
    rw [structPieces_structs]
    simpa using others
  · have listed : owner ∈ (owners m).filter fun o => !(m.structs.map (·.name)).contains o := by
      rw [List.mem_filter]
      exact ⟨mem_owners named some, by simpa using declared⟩
    obtain ⟨front, back, os⟩ := List.append_of_mem listed
    have whole : m.layout = structPieces m [] m.structs ++ front.flatMap (implBlock m) ++
        implBlock m owner ++
          (back.flatMap (implBlock m) ++ (free m).flatMap fun f => [.func f 0, .text "\n"]) := by
      rw [Module.layout, os]
      simp only [List.flatMap_append, List.flatMap_cons, List.append_assoc]
    obtain ⟨whole, only⟩ := placed whole
    refine ⟨_, _, whole, only, .inr ⟨by simpa using declared, ?_⟩⟩
    simp [List.filterMap_flatMap, implBlock_structs, Piece.struct?]

/-- Structs stand in the order of their declaration. Every function with a body stands in the file once
and no other does: in the one block of its owner, or, in the order of declaration, behind everything else
if it has no owner. -/
theorem layout_arranges (m : Module) :
    m.layout.filterMap Piece.struct? = m.structs ∧
      (m.layout.filterMap Piece.func?).Perm (m.funcs.filter (!·.isExtern)) ∧
      (∀ f ∈ m.funcs, f.isExtern = false → f.owner ≠ "" →
        ∃ before after, Gathered m f.owner before after) ∧
      ∃ front, m.layout = front ++ (ownedBy m "").flatMap (fun f => [.func f 0, .text "\n"]) ∧
        ∀ f ∈ front.filterMap Piece.func?, f.owner ≠ "" := by
  refine ⟨layout_structs m, layout_funcs m, ?_, ?_⟩
  · intro f declared inner named
    apply gathered named
    apply List.ne_nil_of_mem (a := f)
    simp [ownedBy, declared, inner]
  · have whole : m.layout = _ ++ ((free m).flatMap fun f => [Piece.func f 0, .text "\n"]) ++ [] :=
      (List.append_nil _).symm
    have others := none_elsewhere whole ((free_funcs m).trans (free_eq m))
    rw [List.filterMap_nil, List.append_nil] at others
    rw [List.append_nil, free_eq] at whole
    exact ⟨_, whole, others⟩

end Layout

end Tenure
