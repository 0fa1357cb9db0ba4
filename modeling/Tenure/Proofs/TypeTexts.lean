import Mathlib.Logic.Function.Iterate
import Tenure.Proofs.DomainTypes

/- Types as they are written and read again. A mark behind the text of a function type belongs to its
   result, so an optional function is read as a function with an optional result; nothing else is read
   differently. -/
namespace Tenure.Ty

def isTypeName (name : String) : Bool :=
  !name.toList.isEmpty && name.toList.all isNameChar && !keywords.contains name

mutual
def isSpelled : Ty → Bool
  | .unknown => false
  | .named name .. => isTypeName name
  | .array elem | .optional elem => elem.isSpelled
  | .func params result => areSpelled params && result.isSpelled
  | _ => true
def areSpelled : List Ty → Bool
  | [] => true
  | t :: ts => t.isSpelled && areSpelled ts
end

mutual
def isDefinite : Ty → Bool
  | .array elem => elem.isDefinite
  | .optional elem => !elem.isFunc && elem.isDefinite
  | .func params result => areDefinite params && result.isDefinite
  | _ => true
def areDefinite : List Ty → Bool
  | [] => true
  | t :: ts => t.isDefinite && areDefinite ts
end

/-- What a mark behind the text of a type makes of it: it goes to the last result. -/
def mark : Ty → Ty
  | .func params result => .func params result.mark
  | t => .optional t

mutual
def reread : Ty → Ty
  | .named name .. => .named name false false
  | .array elem => .array elem.reread
  | .optional elem => elem.reread.mark
  | .func params result => .func (rereadAll params) result.reread
  | t => t
def rereadAll : List Ty → List Ty
  | [] => []
  | t :: ts => t.reread :: rereadAll ts
end

/-! ### What is read -/

theorem marks_func (params : List Ty) (result : Ty) (k : Nat) :
    mark^[k] (.func params result) = .func params (mark^[k] result) := by
  induction k generalizing result with
  | zero => rfl
  | succ k ih => exact ih result.mark

theorem Marked.replicate {s : List Char} {t : Ty} (type : Marked s t) (other : t.isFunc = false)
    (k : Nat) : Written (s ++ List.replicate k '?') (mark^[k] t) := by
  induction k generalizing s t with
  | zero =>
    rw [List.replicate_zero, List.append_nil]
    exact .marked type
  | succ k ih =>
    have once : t.mark = .optional t := by
      cases t with
      | func params result => cases other
      | _ => rfl
    have next := ih (type.optional 0) rfl
    rw [List.append_assoc, ← once] at next
    exact next

mutual
theorem written_text {t : Ty} (spelled : t.isSpelled = true) (k : Nat) :
    Written (t.text.toList ++ List.replicate k '?') (mark^[k] t.reread) := by
  cases t with
  | unknown => cases spelled
  | named name copy noClone =>
    simp only [isSpelled, isTypeName, Bool.and_eq_true, Bool.not_eq_true', List.isEmpty_eq_false_iff,
      List.all_eq_true, List.contains_eq_mem, decide_eq_false_iff_not] at spelled
    have type := Marked.name 0 spelled.1.1 spelled.1.2
    rw [String.ofList_toList, ofName_struct spelled.2] at type
    exact type.replicate rfl k
  | array elem =>
    have inner := written_text (t := elem) spelled 0
    rw [List.replicate_zero, List.append_nil] at inner
    have type : Marked (array elem).text.toList (.array elem.reread) := by
      simpa [text, spaced] using Marked.array 0 0 inner
    exact type.replicate rfl k
  | optional elem =>
    have inner := written_text (t := elem) spelled (k + 1)
    simpa [text, reread, List.replicate_succ] using inner
  | func params result =>
    rw [isSpelled, Bool.and_eq_true] at spelled
    have type := Written.function 0 1 (.listed (written_texts spelled.1)) (written_text spelled.2 k).blank
    have comma : ", ".toList = [',', ' '] := rfl
    rw [reread, marks_func]
    simpa [text, spaced, Text.listed, String.toList_intercalate, comma] using type
  | _ => exact Marked.replicate (.name 0 (by decide) (List.all_eq_true.mp (by decide))) rfl k
theorem written_texts {ts : List Ty} (spelled : areSpelled ts = true) :
    List.Forall₂ Written ((texts ts).map String.toList) (rereadAll ts) := by
  cases ts with
  | nil => exact .nil
  | cons t ts =>
    rw [areSpelled, Bool.and_eq_true] at spelled
    have first := written_text spelled.1 0
    rw [List.replicate_zero, List.append_nil] at first
    exact .cons first (written_texts spelled.2)
end

theorem parse_reread {t : Ty} (spelled : t.isSpelled = true) : parse t.text = .ok t.reread := by
  have type := written_text spelled 0
  rw [List.replicate_zero, List.append_nil] at type
  exact type.parse_toList

/-! ### What is read back -/

theorem mark_eq_optional_iff {s t : Ty} : s.mark = .optional t ↔ s.isFunc = false ∧ s = t := by
  cases s <;> simp [mark, isFunc]

theorem isFunc_bare (t : Ty) : t.bare.isFunc = t.isFunc := by
  cases t <;> rfl

mutual
theorem reread_eq_bare_iff (t : Ty) : t.reread = t.bare ↔ t.isDefinite = true := by
  cases t with
  | array elem =>
    have inner := reread_eq_bare_iff elem
    rw [bare] at inner
    rw [reread, bare, withProps, array.injEq, inner, isDefinite]
  | optional elem =>
    have inner := reread_eq_bare_iff elem
    have kind := isFunc_bare elem
    rw [bare] at inner kind
    rw [reread, bare, withProps, mark_eq_optional_iff, isDefinite, Bool.and_eq_true, Bool.not_eq_true',
      ← inner, ← kind]
    constructor
    · rintro ⟨other, same⟩
      exact ⟨same ▸ other, same⟩
    · rintro ⟨other, same⟩
      exact ⟨same ▸ other, same⟩
  | func params result =>
    have inner := reread_eq_bare_iff result
    rw [bare] at inner
    rw [reread, bare, withProps, func.injEq, rereadAll_eq_bare_iff params, inner, isDefinite,
      Bool.and_eq_true]
  | _ => simp [reread, bare, withProps, isDefinite]
theorem rereadAll_eq_bare_iff (ts : List Ty) :
    rereadAll ts = withPropsAll (fun _ => some (false, false)) ts ↔ areDefinite ts = true := by
  cases ts with
  | nil => simp [rereadAll, withPropsAll, areDefinite]
  | cons t ts =>
    have first := reread_eq_bare_iff t
    rw [bare] at first
    rw [rereadAll, withPropsAll, List.cons.injEq, first, rereadAll_eq_bare_iff ts, areDefinite,
      Bool.and_eq_true]
end

/-- The text of a type is read, and as the type itself, up to the properties of its structs, which are
not written, exactly if no function in it is optional. -/
theorem parse_text_exact (t : Ty) (spelled : t.isSpelled = true) :
    ∃ r, parse t.text = .ok r ∧ (r = t.bare ↔ t.isDefinite = true) ∧
      (t.isBare = true → (r = t ↔ t.isDefinite = true)) := by
  refine ⟨t.reread, parse_reread spelled, reread_eq_bare_iff t, ?_⟩
  intro plain
  have same := reread_eq_bare_iff t
  rwa [bare_eq_self plain] at same

def maybeCallbacks : Ty := .array (.optional (.func [.named "Point" false false] .string))

theorem maybeCallbacks_text_exact :
    maybeCallbacks.isSpelled = true ∧ maybeCallbacks.text = "[fn(Point) -> string?]" ∧
      ∃ r, parse maybeCallbacks.text = .ok r ∧ r ≠ maybeCallbacks := by
  have spelled : maybeCallbacks.isSpelled = true := by decide
  obtain ⟨r, parsed, -, itself⟩ := parse_text_exact maybeCallbacks spelled
  refine ⟨spelled, by decide, r, parsed, ?_⟩
  intro same
  have definite := (itself (by decide)).1 same
  exact absurd definite (by decide)

end Tenure.Ty
