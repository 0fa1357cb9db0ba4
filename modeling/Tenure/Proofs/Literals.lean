import Tenure.Backend.Spelling

/- Text literals of the backend language. They are read from left to right, up to the first double quote
   that no backslash takes; what is written for a text reads as that text, whatever follows. -/
namespace Tenure.Backend

def escape? (c : Char) : Option Char :=
  if c = 'n' then some '\n'
  else if c = 'r' then some '\r'
  else if c = 't' then some '\t'
  else if c = '0' then some '\x00'
  else if c = '"' ∨ c = '\'' ∨ c = '\\' then some c
  else none

def literalRest? : Bool → List Char → Option (List Char × List Char)
  | _, [] => none
  | true, c :: cs =>
    (escape? c).bind fun d => (literalRest? false cs).map fun (s, rest) => (d :: s, rest)
  | false, c :: cs =>
    if c = '"' then some ([], cs)
    else if c = '\\' then literalRest? true cs
    else (literalRest? false cs).map fun (s, rest) => (c :: s, rest)

def literal? : List Char → Option (String × List Char)
  | [] => none
  | c :: cs =>
    if c = '"' then (literalRest? false cs).map fun (s, rest) => (String.ofList s, rest) else none

def breaks : List Char := ['\n', '\r', '\t', '\x00']

theorem quotedChar_cases (c : Char) :
    (∃ e, quotedChar c = ['\\', e] ∧ escape? e = some c ∧ e ∉ breaks) ∨
      quotedChar c = [c] ∧ c ≠ '"' ∧ c ≠ '\\' ∧ c ∉ breaks := by
  unfold quotedChar
  split
  iterate 5 exact .inl ⟨_, rfl, by decide, by decide⟩
  case _ quote slash line carriage tab =>
    split
    · next zero =>
      obtain rfl : c = '\x00' := Char.toNat_inj.mp zero
      exact .inl ⟨_, rfl, by decide, by decide⟩
    · next other =>
      have nul : c ≠ '\x00' := fun same => other (same ▸ rfl)
      refine .inr ⟨rfl, quote, slash, ?_⟩
      simp only [breaks, List.mem_cons, List.not_mem_nil, or_false, not_or]
      exact ⟨line, carriage, tab, nul⟩

def slashes (cs : List Char) : Nat := (cs.reverse.takeWhile (· == '\\')).length

theorem slashes_append {as : List Char} (even : slashes as % 2 = 0) (bs : List Char) :
    slashes (as ++ bs) % 2 = slashes bs % 2 := by
  unfold slashes at *
  rw [List.reverse_append, List.takeWhile_append]
  split
  · next all =>
    rw [List.length_append, ← all, Nat.add_mod, even, Nat.add_zero, Nat.mod_mod]
  · rfl

theorem slashes_quotedChar (c : Char) : slashes (quotedChar c) % 2 = 0 := by
  obtain ⟨e, written, -, -⟩ | ⟨written, -, other, -⟩ := quotedChar_cases c
  · by_cases slash : e = '\\' <;> simp [written, slashes, slash]
  · simp [written, slashes, other]

theorem slashes_before_quote {s before after : List Char}
    (h : s.flatMap quotedChar = before ++ '"' :: after) : slashes before % 2 = 1 := by
  induction s generalizing before with
  | nil => simp at h
  | cons c s ih =>
    rw [List.flatMap_cons, List.append_eq_append_iff] at h
    obtain ⟨more, rfl, inside⟩ | ⟨more, cut, behind⟩ := h
    · rw [slashes_append (slashes_quotedChar c)]
      exact ih inside
    · cases more with
      | nil => exact absurd (@ih [] behind.symm) (by decide)
      | cons q more =>
        obtain rfl : '"' = q := (List.cons.inj behind).1
        obtain ⟨e, written, -, -⟩ | ⟨written, other, -, -⟩ := quotedChar_cases c
        · rw [written] at cut
          rcases before with _ | ⟨a, _ | ⟨b, before⟩⟩
          · simp at cut
          · rw [← (List.cons.inj cut).1]
            rfl
          · simp at cut
        · rw [written] at cut
          rcases before with _ | ⟨a, before⟩
          · exact absurd (List.cons.inj cut).1 other
          · simp at cut

theorem literalRest?_written (s rest : List Char) :
    literalRest? false (s.flatMap quotedChar ++ '"' :: rest) = some (s, rest) := by
  induction s with
  | nil => rfl
  | cons c s ih =>
    rw [List.flatMap_cons, List.append_assoc]
    obtain ⟨e, written, stands, -⟩ | ⟨written, quote, slash, -⟩ := quotedChar_cases c
    · simp [written, literalRest?, stands, ih]
    · simp [written, literalRest?, quote, slash, ih]

theorem literal?_quoted (s : String) (rest : List Char) :
    literal? ((quoted s).toList ++ rest) = some (s, rest) := by
  simp [literal?, quoted, literalRest?_written]

/-- A text survives its literal: between double quotes stands no line break, no tabulator, no zero and
no double quote but those that a backslash takes, and the literal is read as the text. -/
theorem literals_survive :
    (∀ s : String, ∃ body : List Char, (quoted s).toList = '"' :: (body ++ ['"']) ∧
      (∀ c ∈ body, c ∉ ['\n', '\r', '\t', '\x00']) ∧
      (∀ before after, body = before ++ '"' :: after → slashes before % 2 = 1) ∧
      ∀ rest, literal? ((quoted s).toList ++ rest) = some (s, rest)) ∧
    Function.Injective quoted := by
  constructor
  · intro s
    refine ⟨s.toList.flatMap quotedChar, by simp [quoted], ?_,
      fun _ _ => slashes_before_quote, literal?_quoted s⟩
    intro c inside
    obtain ⟨d, -, member⟩ := List.mem_flatMap.mp inside
    obtain ⟨e, written, -, plain⟩ | ⟨written, -, -, plain⟩ := quotedChar_cases d
    · rw [written] at member
      rcases List.mem_cons.mp member with rfl | last
      · decide
      · exact List.mem_singleton.mp last ▸ plain
    · rw [written] at member
      exact List.mem_singleton.mp member ▸ plain
  · intro s t same
    have read := literal?_quoted s []
    rw [same, literal?_quoted t []] at read
    exact (Prod.mk.inj (Option.some.inj read)).1.symm

end Tenure.Backend
