import Tenure.Catalog.TypeText
import Tenure.Proofs.TypeReading

/- Scanning the texts of backend types for commas and parentheses. A text that closes what it opens is
   passed as a whole, at any depth, so a list of such texts is cut where it was joined. -/
namespace Tenure

namespace TypeText

open Text (Solid listed trailing listed_cons)

def glue (x : List Char) : List (List Char) → List (List Char)
  | [] => [x]
  | part :: parts => (x ++ part) :: parts

theorem glue_glue (x y : List Char) (parts : List (List Char)) :
    glue x (glue y parts) = glue (x ++ y) parts := by
  cases parts <;> simp [glue]

/-- Brackets that a text opens it also closes, so that what comes after it is scanned as if the text were
not there. From depth `low` on, none of its commas divides. -/
structure Steady (low : Int) (x : List Char) : Prop where
  parts : ∀ depth prev, low ≤ depth → prev ≠ '-' → ∃ last, last ≠ '-' ∧ ∀ rest,
    partsFrom depth prev (x ++ rest) = glue x (partsFrom depth last rest)
  parens : ∀ depth rest, balanced (depth + 1) (x ++ rest) =
    (balanced (depth + 1) rest).map fun (inner, rest) => (x ++ inner, rest)

theorem partsFrom_cons {depth : Int} {prev c : Char} {s : List Char} (comma : c = ',' → depth ≠ 0) :
    partsFrom depth prev (c :: s) =
      glue [c] (partsFrom
        (if isOpening c then depth + 1
          else if isClosing c && !(c == '>' && prev == '-') then depth - 1
          else depth) c s) := by
  rw [partsFrom, if_neg (fun both => comma both.1 both.2)]
  simp only []
  generalize partsFrom _ c s = parts
  cases parts <;> rfl

theorem partsFrom_ne_nil (depth : Int) (prev : Char) (s : List Char) : partsFrom depth prev s ≠ [] := by
  cases s with
  | nil => simp [partsFrom]
  | cons c s =>
    by_cases comma : c = ',' ∧ depth = 0
    · simp [partsFrom, comma]
    · rw [partsFrom_cons fun is zero => comma ⟨is, zero⟩]
      generalize partsFrom _ c s = parts
      cases parts <;> simp [glue]

def isPlain (c : Char) : Bool := !isOpening c && !isClosing c && c != ',' && c != '-'

theorem Steady.nil (low : Int) : Steady low [] := by
  constructor
  · intro depth prev _ going
    refine ⟨prev, going, fun rest => ?_⟩
    obtain ⟨part, parts, shape⟩ := List.exists_cons_of_ne_nil (partsFrom_ne_nil depth prev rest)
    simp [glue, shape]
  · intro depth rest
    simp

variable {low : Int} {x : List Char}

theorem Steady.append {y : List Char} (first : Steady low x) (second : Steady low y) :
    Steady low (x ++ y) := by
  constructor
  · intro depth prev deep going
    obtain ⟨mid, midGoing, left⟩ := first.parts depth prev deep going
    obtain ⟨last, lastGoing, right⟩ := second.parts depth mid deep midGoing
    refine ⟨last, lastGoing, fun rest => ?_⟩
    rw [List.append_assoc, left, right, glue_glue]
  · intro depth rest
    rw [List.append_assoc, first.parens, second.parens, Option.map_map]
    simp [Function.comp_def]

theorem Steady.deeper {high : Int} (steady : Steady low x) (le : low ≤ high) : Steady high x := by
  constructor
  · intro depth prev deep going
    exact steady.parts depth prev (Int.le_trans le deep) going
  · exact steady.parens

theorem Steady.char {c : Char} (plain : isPlain c = true ∨ (c = ',' ∧ 0 < low)) :
    Steady low [c] := by
  have facts : isOpening c = false ∧ isClosing c = false ∧ c ≠ '-' := by
    rcases plain with plain | ⟨rfl, -⟩
    · simp only [isPlain, Bool.and_eq_true, Bool.not_eq_true', bne_iff_ne, ne_eq] at plain
      exact ⟨plain.1.1.1, plain.1.1.2, plain.2⟩
    · decide
  obtain ⟨opening, closing, going⟩ := facts
  constructor
  · intro depth prev deep _
    refine ⟨c, going, fun rest => ?_⟩
    rw [List.singleton_append, partsFrom_cons]
    · simp [opening, closing]
    · rintro rfl
      rcases plain with plain | ⟨-, positive⟩
      · exact absurd plain (by decide)
      · omega
  · intro depth rest
    have parens : c ≠ '(' ∧ c ≠ ')' := by
      constructor <;> rintro rfl <;> simp [isOpening, isClosing] at opening closing
    rw [List.singleton_append, balanced]
    simp [parens.1, parens.2]

theorem Steady.plain {low : Int} {x : List Char} (plain : x.all isPlain = true) : Steady low x := by
  induction x with
  | nil => exact .nil low
  | cons c x ih =>
    rw [List.all_cons, Bool.and_eq_true] at plain
    exact (Steady.char (.inl plain.1)).append (ih plain.2)

theorem Steady.arrow : Steady 0 " -> ".toList := by
  constructor
  · intro depth prev _ going
    refine ⟨' ', by decide, fun rest => ?_⟩
    have text : " -> ".toList ++ rest = ' ' :: '-' :: '>' :: ' ' :: rest := rfl
    rw [text, partsFrom_cons (by simp), partsFrom_cons (by simp), partsFrom_cons (by simp),
      partsFrom_cons (by simp), glue_glue, glue_glue, glue_glue]
    rfl
  · intro depth rest
    have text : " -> ".toList ++ rest = ' ' :: '-' :: '>' :: ' ' :: rest := rfl
    rw [text]
    simp [balanced, Option.map_map, Function.comp_def]

theorem Steady.parenthesized (inner : Steady 1 x) : Steady 0 ('(' :: x ++ [')']) := by
  constructor
  · intro depth prev deep _
    obtain ⟨last, -, inside⟩ := inner.parts (depth + 1) '(' (by omega) (by decide)
    refine ⟨')', by decide, fun rest => ?_⟩
    have text : '(' :: x ++ [')'] ++ rest = '(' :: (x ++ ')' :: rest) := by simp
    rw [text, partsFrom_cons (by simp)]
    simp only [show isOpening '(' = true from rfl, if_true, inside]
    rw [partsFrom_cons (by simp), glue_glue, glue_glue]
    simp [isOpening, isClosing]
  · intro depth rest
    have text : '(' :: x ++ [')'] ++ rest = '(' :: (x ++ ')' :: rest) := by simp
    have close : balanced (depth + 1 + 1) (')' :: rest) =
        (balanced (depth + 1) rest).map fun (inner, rest) => (')' :: inner, rest) := by
      rw [balanced]
      simp
    rw [text, balanced]
    simp only [Char.reduceEq, false_and, if_false, if_true]
    rw [inner.parens, close, Option.map_map, Option.map_map]
    simp [Function.comp_def]

theorem Steady.angled (inner : Steady 1 x) : Steady 0 ('<' :: x ++ ['>']) := by
  constructor
  · intro depth prev deep _
    obtain ⟨last, going, inside⟩ := inner.parts (depth + 1) '<' (by omega) (by decide)
    refine ⟨'>', by decide, fun rest => ?_⟩
    have text : '<' :: x ++ ['>'] ++ rest = '<' :: (x ++ '>' :: rest) := by simp
    rw [text, partsFrom_cons (by simp)]
    simp only [show isOpening '<' = true from rfl, if_true, inside]
    rw [partsFrom_cons (by simp), glue_glue, glue_glue]
    simp [isOpening, isClosing, going]
  · intro depth rest
    have text : '<' :: x ++ ['>'] ++ rest = '<' :: (x ++ '>' :: rest) := by simp
    have close : balanced (depth + 1) ('>' :: rest) =
        (balanced (depth + 1) rest).map fun (inner, rest) => ('>' :: inner, rest) := by
      rw [balanced]
      simp
    rw [text, balanced]
    simp only [Char.reduceEq, false_and, if_false]
    rw [inner.parens, close, Option.map_map, Option.map_map]
    simp [Function.comp_def]

section Lists

variable {xs : List (List Char)}

theorem Steady.trailing (steady : ∀ x ∈ xs, Steady 0 x) : Steady 1 (trailing xs) := by
  induction xs with
  | nil => exact .nil 1
  | cons x xs ih =>
    have comma : Steady 1 [','] := .char (.inr ⟨rfl, by decide⟩)
    have blank : Steady 1 [' '] := .char (.inl (by decide))
    have first : Steady 1 x := (steady x List.mem_cons_self).deeper (by decide)
    have rest : Steady 1 (Text.trailing xs) := ih fun y mem => steady y (List.mem_cons_of_mem _ mem)
    have text : Text.trailing (x :: xs) = [','] ++ ([' '] ++ (x ++ Text.trailing xs)) := by
      simp [Text.trailing]
    rw [text]
    exact comma.append (blank.append (first.append rest))

theorem Steady.listed (steady : ∀ x ∈ xs, Steady 0 x) : Steady 1 (listed xs) := by
  cases xs with
  | nil => exact .nil 1
  | cons x xs =>
    have first : Steady 1 x := (steady x List.mem_cons_self).deeper (by decide)
    have rest : Steady 1 (Text.trailing xs) :=
      .trailing fun y mem => steady y (List.mem_cons_of_mem _ mem)
    rw [listed_cons]
    exact first.append rest

theorem partsFrom_trailing (steady : ∀ x ∈ xs, Steady 0 x) {prev : Char} :
    partsFrom 0 prev (trailing xs) = [] :: xs.map (' ' :: ·) := by
  induction xs generalizing prev with
  | nil => rfl
  | cons x xs ih =>
    obtain ⟨last, -, across⟩ := (steady x List.mem_cons_self).parts 0 ' ' (Int.le_refl 0) (by decide)
    have rest : partsFrom 0 last (trailing xs) = [] :: xs.map (' ' :: ·) :=
      ih fun y mem => steady y (List.mem_cons_of_mem _ mem)
    have text : trailing (x :: xs) = ',' :: ' ' :: (x ++ trailing xs) := by simp [trailing]
    rw [text, partsFrom, if_pos ⟨rfl, rfl⟩, partsFrom_cons (by simp)]
    simp only [isOpening, isClosing, Char.reduceBEq, Bool.or_self, Bool.false_and, Bool.false_eq_true,
      if_false, across, rest]
    simp [glue]

theorem dropBlankLast_solid (solid : ∀ x ∈ xs, Solid x) : dropBlankLast xs = xs := by
  induction xs with
  | nil => rfl
  | cons x xs ih =>
    cases xs with
    | nil =>
      obtain ⟨c, rest, rfl, -⟩ := (solid x List.mem_cons_self).first
      rfl
    | cons y ys =>
      rw [dropBlankLast, ih fun z mem => solid z (List.mem_cons_of_mem _ mem)]
      simp

theorem parts_listed (steady : ∀ x ∈ xs, Steady 0 x) (solid : ∀ x ∈ xs, Solid x) :
    parts (listed xs) = xs := by
  cases xs with
  | nil => rfl
  | cons x xs =>
    have others : ∀ y ∈ xs, Solid y := fun y mem => solid y (List.mem_cons_of_mem _ mem)
    obtain ⟨last, -, across⟩ := (steady x List.mem_cons_self).parts 0 ' ' (Int.le_refl 0) (by decide)
    have pieces : partsFrom 0 ' ' (listed (x :: xs)) = x :: xs.map (' ' :: ·) := by
      rw [listed_cons, across, partsFrom_trailing fun y mem => steady y (List.mem_cons_of_mem _ mem)]
      simp [glue]
    have trimmed : (x :: xs.map (' ' :: ·)).map Text.trimChars = x :: xs := by
      have each : xs.map (Text.trimChars ∘ (' ' :: ·)) = xs.map id :=
        List.map_congr_left fun y mem => Text.trimChars_blank (others y mem)
      rw [List.map_cons, Text.trimChars_solid (solid x List.mem_cons_self), List.map_map, each,
        List.map_id]
    have some : (Text.trimChars (listed (x :: xs))).isEmpty = false := by
      obtain ⟨c, rest, rfl, visible⟩ := (solid x List.mem_cons_self).first
      rw [listed_cons, List.cons_append, List.isEmpty_eq_false_iff]
      exact Text.trimChars_ne_nil visible
    rw [parts, some, pieces, trimmed]
    simp only [Bool.false_eq_true, if_false]
    exact dropBlankLast_solid solid

end Lists

end TypeText

end Tenure
