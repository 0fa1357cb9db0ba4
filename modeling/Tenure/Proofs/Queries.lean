import Tenure.Proofs.Catalogs
import Tenure.Proofs.Readback

/- Asking for findings by number or name. A query is compared in its folded form, in which no upper case
   is left; a number is compared after it has been cut down to the range of codes. -/
namespace Tenure

def Digits (ds : List Char) (n : Nat) : Prop :=
  ds ≠ [] ∧ (∀ d ∈ ds, d.isDigit = true) ∧ n = Nat.ofDigitChars 10 ds 0

/-- A decimal numeral, maybe with a sign, and the integer it stands for. -/
inductive Denotes : List Char → Int → Prop
  | plain {ds : List Char} {n : Nat} : Digits ds n → Denotes ds n
  | plus {ds : List Char} {n : Nat} : Digits ds n → Denotes ('+' :: ds) n
  | minus {ds : List Char} {n : Nat} : Digits ds n → Denotes ('-' :: ds) (-n)

section Numerals

theorem digits_of_decimal? {cs : List Char} {n : Nat} (read : Json.decimal? cs = some n) :
    Digits cs n := by
  unfold Json.decimal? at read
  split at read
  · next fits =>
    obtain ⟨some, all⟩ := (Bool.and_eq_true _ _).mp fits
    refine ⟨by simpa using some, fun d mem => ?_, ?_⟩
    · rw [← Json.isDigit_eq]
      exact List.all_eq_true.mp all d mem
    · rw [Nat.ofDigitChars_eq_foldl]
      exact (Option.some.inj read).symm
  · cases read

theorem digits_of_all {ds : List Char} (h : ¬(ds.isEmpty = true ∨ ¬ds.all Json.isDigit = true)) :
    Digits ds (ds.foldl (fun n c => 10 * n + (c.toNat - 48)) 0) := by
  rw [not_or, not_not] at h
  refine digits_of_decimal? (if_pos ?_)
  rw [Bool.and_eq_true, Bool.not_eq_true']
  exact ⟨Bool.eq_false_iff.mpr h.1, h.2⟩

theorem denotes_of_signedDecimal? {s : List Char} {n : Int} (read : signedDecimal? s = some n) :
    Denotes s n := by
  unfold signedDecimal? at read
  dsimp only at read
  split at read
  all_goals
    simp only [if_true, Bool.false_eq_true, if_false, Option.ite_none_left_eq_some,
      Option.ite_none_right_eq_some, Option.some.injEq] at read
    obtain ⟨fits, -, rfl⟩ := read
  exacts [.minus (digits_of_all fits), .plus (digits_of_all fits), .plain (digits_of_all fits)]

theorem Denotes.unique {s : List Char} {m n : Int} (hm : Denotes s m) (hn : Denotes s n) : m = n := by
  cases hm <;> cases hn
  case plain.plus _ _ hm | plain.minus _ _ hm => exact absurd (hm.2.1 _ List.mem_cons_self) (by decide)
  case plus.plain hn | minus.plain hn => exact absurd (hn.2.1 _ List.mem_cons_self) (by decide)
  case plain.plain hm _ hn | plus.plus hm _ hn | minus.minus hm _ hn => rw [hm.2.2, hn.2.2]

theorem Denotes.low {s : List Char} {n : Int} (h : Denotes s n) :
    ∀ c ∈ s, 0 < c.toNat ∧ c.toNat < 65 := by
  have low : ∀ {ds : List Char} {k : Nat}, Digits ds k → ∀ c ∈ ds, 0 < c.toNat ∧ c.toNat < 65 := by
    intro ds k digits c mem
    obtain ⟨zero, nine⟩ := Char.isDigit_iff_toNat.mp (digits.2.1 c mem)
    exact ⟨Nat.lt_of_lt_of_le (by decide) zero, Nat.lt_of_le_of_lt nine (by decide)⟩
  cases h with
  | plain digits => exact low digits
  | plus digits | minus digits => exact List.forall_mem_cons.mpr ⟨by decide, low digits⟩

end Numerals

namespace Text

section Tables

theorem rowFor_mem {α : Type} {table : Array α} {key : α → Nat} {n : Nat} {row : α}
    (found : rowFor table key n = some row) : row ∈ table := by
  unfold rowFor at found
  split at found
  · cases found
  · exact Array.mem_of_getElem? found

theorem applyRuns_cases (table : Array Run) (n : Nat) : applyRuns table n = n ∨
    ∃ r ∈ table, n ≤ r.hi ∧ applyRuns table n = r.target + (n - r.lo) := by
  unfold applyRuns
  split
  · next r found =>
    split
    · next fits => exact .inr ⟨r, rowFor_mem found, fits.1, rfl⟩
    · exact .inl rfl
  · exact .inl rfl

theorem findExpansion_mem {table : Array (Nat × List Nat)} {n : Nat} {ns : List Nat}
    (found : findExpansion table n = some ns) : ∃ row ∈ table, row.2 = ns := by
  unfold findExpansion at found
  split at found
  · next key value row =>
    split at found
    · exact ⟨_, rowFor_mem row, Option.some.inj found⟩
    · cases found
  · cases found

theorem upperRuns_high : (upperRuns.all fun r => r.hi < 128 || 128 ≤ r.target ||
    r.lo == r.hi && (r.target == 73 || r.target == 83)) = true := by
  simp only [upperRuns, runs, rows, List.flatMap_cons, List.flatMap_nil]
  repeat rw [String.toList_ofList]
  decide +kernel

theorem lowerRuns_high : (lowerRuns.all fun r => 97 ≤ r.target) = true := by
  simp only [lowerRuns, runs, rows, List.flatMap_cons, List.flatMap_nil]
  repeat rw [String.toList_ofList]
  decide +kernel

theorem variantRuns_high : (variantRuns.all fun r => 97 ≤ r.target) = true := by
  simp only [variantRuns, runs, rows, List.flatMap_cons, List.flatMap_nil]
  repeat rw [String.toList_ofList]
  decide +kernel

theorem foldExpansions_high : (foldExpansions.all fun r => r.2.all (97 ≤ ·)) = true := by
  simp only [foldExpansions, expansions, rows, List.flatMap_cons, List.flatMap_nil]
  repeat rw [String.toList_ofList]
  decide +kernel

theorem applyRuns_high {table : Array Run} (high : (table.all fun r => 97 ≤ r.target) = true) {n : Nat}
    (far : 97 ≤ n) : 97 ≤ applyRuns table n := by
  obtain unchanged | ⟨r, row, -, moved⟩ := applyRuns_cases table n
  · rwa [unchanged]
  · have := of_decide_eq_true (Array.all_eq_true_iff_forall_mem.mp high r row)
    omega

theorem toNat_ofNat_cases (n : Nat) : (Char.ofNat n).toNat = n ∨ (Char.ofNat n).toNat = 0 := by
  by_cases valid : n.isValidChar
  · exact .inl (congrArg Char.toNat (dif_pos valid))
  · exact .inr (congrArg Char.toNat (dif_neg valid))

theorem upperChar_high {c : Char} (high : 128 ≤ c.toNat) :
    128 ≤ (upperChar c).toNat ∨ (upperChar c).toNat ∈ [0, 73, 83] := by
  rw [upperChar, if_neg (Nat.not_lt.mpr high)]
  rcases toNat_ofNat_cases (applyRuns upperRuns c.toNat) with same | zero
  · rw [same]
    obtain unchanged | ⟨r, row, upto, moved⟩ := applyRuns_cases upperRuns c.toNat
    · rw [unchanged]
      exact .inl high
    · have := Array.all_eq_true_iff_forall_mem.mp upperRuns_high r row
      simp only [Bool.or_eq_true, Bool.and_eq_true, decide_eq_true_eq, beq_iff_eq] at this
      rw [moved]
      simp only [List.mem_cons, List.not_mem_nil, or_false]
      omega
  · simp [zero]

theorem eq_of_upperChar {c : Char} (low : (upperChar c).toNat < 128)
    (other : (upperChar c).toNat ∉ [0, 73, 83]) :
    c = upperChar c ∨ 65 ≤ (upperChar c).toNat ∧ c = (upperChar c).toLower := by
  have ascii : ∀ n < 128, Char.ofNat n = (Char.ofNat n).toUpper ∨
      65 ≤ (Char.ofNat n).toUpper.toNat ∧ Char.ofNat n = (Char.ofNat n).toUpper.toLower := by decide
  rcases Nat.lt_or_ge c.toNat 128 with small | high
  · have here := ascii c.toNat small
    rwa [Char.ofNat_toNat, ← show upperChar c = c.toUpper from if_pos small] at here
  · rcases upperChar_high high with far | few
    · omega
    · exact absurd few other

theorem foldChar_not_upper {c d : Char} (mem : d ∈ foldChar c) : d.toNat < 65 ∨ 91 ≤ d.toNat := by
  have ascii : ∀ n < 128, (Char.ofNat n).toLower.toNat < 65 ∨ 91 ≤ (Char.ofNat n).toLower.toNat := by
    decide
  have far : ∀ n, 97 ≤ n → (Char.ofNat n).toNat < 65 ∨ 91 ≤ (Char.ofNat n).toNat := by
    intro n le
    rcases toNat_ofNat_cases n with same | zero <;> omega
  unfold foldChar at mem
  split at mem
  · next small =>
    have here := ascii c.toNat small
    rw [Char.ofNat_toNat] at here
    exact List.mem_singleton.mp mem ▸ here
  · next high =>
    split at mem
    · next ns found =>
      obtain ⟨n, part, rfl⟩ := List.mem_map.mp mem
      obtain ⟨row, known, rfl⟩ := findExpansion_mem found
      have these := Array.all_eq_true_iff_forall_mem.mp foldExpansions_high row known
      exact far n (by simpa using List.all_eq_true.mp these n part)
    · rw [List.mem_singleton.mp mem]
      exact far _ (applyRuns_high variantRuns_high (applyRuns_high lowerRuns_high (by omega)))

theorem lower_of_upperChar {c u : Char} (folded : c.toNat < 65 ∨ 91 ≤ c.toNat) (upper : upperChar c = u)
    (letter : (65 ≤ u.toNat ∧ u.toNat < 91) ∧ u.toNat ∉ [0, 73, 83]) : c = u.toLower := by
  subst upper
  rcases eq_of_upperChar (by omega) letter.2 with same | lower
  · rw [← same] at letter
    omega
  · exact lower.2

end Tables

theorem foldCase_not_upper {s : String} :
    ∀ c ∈ (trim (foldCase s)).toList, c.toNat < 65 ∨ 91 ≤ c.toNat := by
  intro c mem
  simp only [trim, trimChars, trimRightChars, trimLeftChars, foldCase, String.toList_ofList,
    List.mem_reverse] at mem
  have inside :=
    (List.dropWhile_sublist _).mem (List.mem_reverse.mp ((List.dropWhile_sublist _).mem mem))
  obtain ⟨d, -, part⟩ := List.mem_flatMap.mp inside
  exact foldChar_not_upper part

theorem dropLead_eq {lead s rest : String} (dropped : dropLead lead s = some rest) :
    s.toList = lead.toList ++ rest.toList := by
  unfold dropLead startsWith at dropped
  split at dropped
  · next starts =>
    cases dropped
    obtain ⟨more, same⟩ := List.isPrefixOf_iff_prefix.mp starts
    rw [String.toList_ofList, ← same, ← String.length_toList, List.drop_left]
  · cases dropped

end Text

theorem Denotes.of_upper {ds : List Char} {n : Int} (h : Denotes (ds.map Text.upperChar) n) :
    Denotes ds n := by
  have same : ∀ c ∈ ds, Text.upperChar c = c := by
    intro c mem
    obtain ⟨some, low⟩ := h.low _ (List.mem_map_of_mem mem)
    have few : (Text.upperChar c).toNat ∉ [0, 73, 83] := by
      simp only [List.mem_cons, List.not_mem_nil, or_false]
      omega
    rcases Text.eq_of_upperChar (by omega) few with unchanged | letter
    · exact unchanged.symm
    · omega
  rwa [List.map_congr_left same, List.map_id'] at h

namespace Catalog

theorem Entry.code?_asked {q : String} {code : Code}
    (folded : ∀ c ∈ q.toList, c.toNat < 65 ∨ 91 ≤ c.toNat) (read : Entry.code? q = some code) :
    ∃ ds, q.toList = 'b' :: 'c' :: 'k' :: ds ∧ Denotes ds code.number := by
  unfold Entry.code? at read
  split at read
  · cases read
  · next digits dropped =>
    have upper := Text.dropLead_eq dropped
    rw [Text.upper, String.toList_ofList] at upper
    obtain ⟨b, cs, split, b', upper⟩ := List.map_eq_cons_iff.mp upper
    obtain ⟨c, ks, rfl, c', upper⟩ := List.map_eq_cons_iff.mp upper
    obtain ⟨k, ds, rfl, k', upper⟩ := List.map_eq_cons_iff.mp upper
    simp only [split, List.forall_mem_cons] at folded
    rw [Text.lower_of_upperChar folded.1 b' (by decide),
      Text.lower_of_upperChar folded.2.1 c' (by decide),
      Text.lower_of_upperChar folded.2.2.1 k' (by decide)] at split
    refine ⟨ds, split, .of_upper ?_⟩
    split at read
    · next n number =>
      split at read
      · cases read
        exact upper ▸ denotes_of_signedDecimal? number
      · cases read
    · cases read

def Entry.Asked (e : Entry) (q : String) : Prop :=
  (∃ ds, q.toList = 'b' :: 'c' :: 'k' :: ds ∧ Denotes ds e.code.number) ∨
    Denotes q.toList e.code.number ∨ q = Text.foldCase e.category

theorem asked_iff {c : Catalog} (made : c.Made) {query q : String} {e : Entry}
    (folding : Text.trim (Text.foldCase query) = q) (found : c.find? query = some e) :
    e ∈ c.entries ∧ (e.Asked q ↔ q = Text.foldCase e.category ∨
      ∀ n, Denotes q.toList n → 0 ≤ n ∧ n < Code.range) := by
  have folded := @Text.foldCase_not_upper query
  unfold find? at found
  dsimp only at found
  rw [folding] at found folded
  split at found
  · next code read =>
    obtain ⟨member, rfl⟩ := (made.indexed.lookup_iff _ _).mp found
    obtain ⟨ds, starts, denotes⟩ := Entry.code?_asked folded read
    refine ⟨member, iff_of_true (.inl ⟨ds, starts, denotes⟩) (.inr fun n number => ?_)⟩
    have := number.low 'b' (by rw [starts]; exact List.mem_cons_self)
    exact absurd this (by decide)
  · split at found
    · next n read =>
      obtain ⟨member, code⟩ := (made.indexed.lookup_iff _ _).mp found
      have denotes := denotes_of_signedDecimal? read
      have number : (e.code.number : Int) = n % Code.range := by
        rw [code]
        exact Int.toNat_of_nonneg (Int.emod_nonneg n (by decide))
      have range : (0 : Int) ≤ n % Code.range ∧ n % Code.range < Code.range :=
        ⟨Int.emod_nonneg n (by decide), Int.emod_lt_of_pos n (by decide)⟩
      refine ⟨member, ?_, ?_⟩
      · rintro (⟨ds, starts, -⟩ | asked | category)
        · have := denotes.low 'b' (by rw [starts]; exact List.mem_cons_self)
          exact absurd this (by decide)
        · refine .inr fun m other => ?_
          rw [other.unique asked, number]
          exact range
        · exact .inl category
      · rintro (category | inside)
        · exact .inr (.inr category)
        · obtain ⟨lo, hi⟩ := inside n denotes
          rw [Int.emod_eq_of_lt lo hi] at number
          exact .inr (.inl (number ▸ denotes))
    · have member := List.mem_of_find?_eq_some found
      have category : Text.foldCase e.category = q := by simpa using List.find?_some found
      exact ⟨member, iff_of_true (.inr (.inr category.symm)) (.inl category.symm)⟩

end Catalog

def FirstNumber (cs : List Char) (n : Nat) : Prop :=
  ∃ before run after, cs = before ++ run ++ after ∧ (∀ c ∈ before, c.isDigit = false) ∧ Digits run n ∧
    ∀ c ∈ after.head?, c.isDigit = false

theorem firstNumber_of_decimal? {cs : List Char} {n : Nat}
    (read : Json.decimal? ((cs.dropWhile fun c => !Json.isDigit c).takeWhile Json.isDigit) = some n) :
    FirstNumber cs n := by
  refine ⟨cs.takeWhile fun c => !Json.isDigit c, _,
    (cs.dropWhile fun c => !Json.isDigit c).dropWhile Json.isDigit, ?_, ?_, digits_of_decimal? read, ?_⟩
  · rw [List.append_assoc, List.takeWhile_append_dropWhile, List.takeWhile_append_dropWhile]
  · intro c mem
    simpa [Json.isDigit_eq] using List.mem_takeWhile_imp mem
  · intro c first
    have stops := List.head?_dropWhile_not Json.isDigit (cs.dropWhile fun c => !Json.isDigit c)
    rw [Option.mem_def.mp first] at stops
    rwa [← Json.isDigit_eq]

theorem Code.parse?_first {s : String} {code : Code} (read : Code.parse? s = some code) :
    ∃ n, FirstNumber s.toList n ∧ code.number = n % Code.range := by
  unfold Code.parse? at read
  dsimp only at read
  split at read
  · cases read
  · next n digits =>
    simp only [Option.ite_none_left_eq_some, Option.ite_none_right_eq_some, Option.some.injEq] at read
    obtain ⟨-, -, rfl⟩ := read
    exact ⟨n, firstNumber_of_decimal? digits, rfl⟩

/-- What is found was asked for exactly if the query is its category or no number outside of the range of
codes; a code that is read is the first number in the text exactly if that is in the range. -/
theorem named_exactly_iff {calls : List Catalog.Call} {c : Catalog} (known : c ∈ Catalog.shelf calls) :
    (∀ query e, c.find? query = some e → e ∈ c.entries ∧
      (e.Asked (Text.trim (Text.foldCase query)) ↔
        Text.trim (Text.foldCase query) = Text.foldCase e.category ∨
          ∀ n, Denotes (Text.trim (Text.foldCase query)).toList n → 0 ≤ n ∧ n < Code.range)) ∧
    ∀ s code, Code.parse? s = some code → ∃ n, FirstNumber s.toList n ∧
      code.number = n % Code.range ∧ (code.number = n ↔ n < Code.range) := by
  refine ⟨fun query e => Catalog.asked_iff (Catalog.shelf_made calls c known) rfl, fun s code read => ?_⟩
  obtain ⟨n, first, number⟩ := Code.parse?_first read
  refine ⟨n, first, number, ?_⟩
  rw [number]
  exact Nat.mod_eq_iff_lt (by decide)

namespace Sample

def ledger : String :=
  "\x7bversion: 1, entries: [\x7bcode: BCK4001, category: a, message: m, patterns: [a]\x7d]\x7d"

theorem ledger_asked : (Catalog.parse ledger).toOption.map (fun c => ["4001", "69537"].all fun query =>
    (c.find? query).any fun e => e.code.number == 4001 && e.category == "a") = some true := by
  decide +kernel

theorem ledger_found : ∃ c ∈ Catalog.shelf [.parse ledger], ∀ query ∈ ["4001", "69537"],
    ∃ e, c.find? query = some e ∧ e.code.number = 4001 ∧ e.category = "a" := by
  obtain ⟨c, parsed, found⟩ := Option.map_eq_some_iff.mp ledger_asked
  refine ⟨c, Catalog.shelf_parse parsed, fun query mem => ?_⟩
  obtain ⟨e, here, same⟩ := (Option.any_eq_true _ _).mp (List.all_eq_true.mp found query mem)
  exact ⟨e, here, by simpa using same⟩

end Sample

theorem ledger_named : ∃ c ∈ Catalog.shelf [.parse Sample.ledger], ∃ e, c.find? "4001" = some e ∧
    e.Asked (Text.trim (Text.foldCase "4001")) := by
  obtain ⟨c, known, found⟩ := Sample.ledger_found
  obtain ⟨e, here, -, -⟩ := found "4001" (by decide)
  have same : Text.trim (Text.foldCase "4001") = "4001" := by decide +kernel
  refine ⟨c, known, e, here, ((named_exactly_iff known).1 "4001" e here).2.mpr (.inr fun n number => ?_)⟩
  rw [same] at number
  rw [number.unique (@Denotes.plain _ 4001 (digits_of_decimal? (by decide +kernel)))]
  decide

/-- An entry is found by a number that is not its own, and a code is read where another number stands. -/
theorem named_by_remainder : (∃ c ∈ Catalog.shelf [.parse Sample.ledger], ∃ e,
      c.find? "69537" = some e ∧ e.code.number = 4001 ∧
        ¬e.Asked (Text.trim (Text.foldCase "69537"))) ∧
    Code.parse? "68538" = some ⟨3002⟩ ∧ FirstNumber "68538".toList 68538 := by
  have digits : Digits "68538".toList 68538 := digits_of_decimal? (by decide +kernel)
  refine ⟨?_, by decide +kernel, [], _, [], rfl, by simp, digits, by simp⟩
  obtain ⟨c, known, found⟩ := Sample.ledger_found
  obtain ⟨e, here, number, category⟩ := found "69537" (by decide)
  have same : Text.trim (Text.foldCase "69537") = "69537" := by decide +kernel
  refine ⟨c, known, e, here, number, fun asked => ?_⟩
  rcases (Catalog.asked_iff (Catalog.shelf_made _ c known) rfl here).2.mp asked with other | inside
  · rw [same, category] at other
    exact absurd other (by decide +kernel)
  · rw [same] at inside
    exact absurd (inside 69537 (@Denotes.plain _ 69537 (digits_of_decimal? (by decide +kernel))))
      (by decide)

end Tenure
