import Tenure.Cache.Basic
import Tenure.Json.Read

/- Keys of units. What is digested of a unit is its document, a zero byte, and more. A document has no
   zero byte itself, so that as long as digests do not collide a key tells its document. -/
namespace Tenure

/-! ### Documents without zeros -/

namespace Json

def zero : Char := Char.ofNat 0

/-- `rest` is `s` without some characters at its front, of which none is the zero character. -/
def Passes (s rest : List Char) : Prop := ∃ front, s = front ++ rest ∧ zero ∉ front

namespace Passes

variable {s t u : List Char}

theorem refl (s : List Char) : Passes s s := ⟨[], rfl, List.not_mem_nil⟩

theorem trans (first : Passes s t) (second : Passes t u) : Passes s u := by
  obtain ⟨front, rfl, clear⟩ := first
  obtain ⟨more, rfl, clear'⟩ := second
  refine ⟨front ++ more, (List.append_assoc ..).symm, ?_⟩
  rw [List.mem_append]
  exact not_or.mpr ⟨clear, clear'⟩

theorem cons {c : Char} (other : c ≠ zero) (rest : Passes s t) : Passes (c :: s) t := by
  obtain ⟨front, rfl, clear⟩ := rest
  refine ⟨c :: front, rfl, ?_⟩
  rw [List.mem_cons]
  exact not_or.mpr ⟨other.symm, clear⟩

theorem dropWhile {p : Char → Bool} (other : p zero = false) (s : List Char) :
    Passes s (s.dropWhile p) := by
  refine ⟨s.takeWhile p, List.takeWhile_append_dropWhile.symm, ?_⟩
  intro mem
  have holds := List.all_eq_true.mp List.all_takeWhile zero mem
  rw [other] at holds
  cases holds

end Passes

theorem passes_skipSpace (s : List Char) : Passes s (skipSpace s) := .dropWhile (by decide) s

variable {s ds : List Char}

theorem passes_digits1 {rest : List Char} (read : digits1 s = some (ds, rest)) : Passes s rest := by
  unfold digits1 at read
  dsimp only at read
  split at read
  · cases read
  · cases read
    exact .dropWhile (by decide) s

theorem passes_fraction {rest : List Char} (read : fraction s = some (ds, rest)) :
    Passes s rest := by
  unfold fraction at read
  split at read
  · obtain ⟨⟨es, t⟩, digits, same⟩ := Option.map_eq_some_iff.mp read
    cases same
    exact (passes_digits1 digits).cons (by decide)
  · cases read
    exact .refl _

theorem passes_exponent {rest : List Char} (read : exponent s = some (ds, rest)) :
    Passes s rest := by
  unfold exponent at read
  split at read
  · rename_i e s
    split at read
    · rename_i letter
      have plain : e ≠ zero := by rcases letter with rfl | rfl <;> decide
      split at read
      · rename_i sign t
        split at read
        · rename_i signed
          have proper : sign ≠ zero := by rcases signed with rfl | rfl <;> decide
          obtain ⟨⟨es, t⟩, digits, same⟩ := Option.map_eq_some_iff.mp read
          cases same
          exact ((passes_digits1 digits).cons proper).cons plain
        · obtain ⟨⟨es, t⟩, digits, same⟩ := Option.map_eq_some_iff.mp read
          cases same
          exact (passes_digits1 digits).cons plain
      · cases read
    · cases read
      exact .refl _
  · cases read
    exact .refl _

theorem passes_number {rest : List Char} {n : String} (read : number s = some (n, rest)) :
    Passes s rest := by
  unfold number at read
  simp only [Option.bind_eq_bind] at read
  split at read
  · rename_i t lead
    obtain ⟨whole, first, read⟩ := Option.bind_eq_some_iff.mp read
    obtain ⟨frac, second, read⟩ := Option.bind_eq_some_iff.mp read
    obtain ⟨exp, third, read⟩ := Option.bind_eq_some_iff.mp read
    cases first
    cases read
    have back := ((passes_fraction second).trans (passes_exponent third)).cons (c := '0') (by decide)
    rw [← lead] at back
    split at back
    · exact back.cons (by decide)
    · exact back
  · obtain ⟨whole, first, read⟩ := Option.bind_eq_some_iff.mp read
    obtain ⟨frac, second, read⟩ := Option.bind_eq_some_iff.mp read
    obtain ⟨exp, third, read⟩ := Option.bind_eq_some_iff.mp read
    cases read
    have back := (passes_digits1 first).trans ((passes_fraction second).trans (passes_exponent third))
    split at back
    · exact back.cons (by decide)
    · exact back

def Step.Passes (s : List Char) : Step → Prop
  | .done rest | .char _ rest => Json.Passes s rest
  | .bad => True

theorem passes_unit16 {a b c d : Char} {n : Nat} (read : unit16 a b c d = some n) :
    Passes (a :: b :: c :: d :: s) s := by
  have proper {x : Char} (digit : isHexDigit x = true) : x ≠ zero := by
    rintro rfl
    exact absurd digit (by decide)
  unfold unit16 at read
  split at read
  · rename_i digits
    simp only [Bool.and_eq_true] at digits
    obtain ⟨⟨⟨ha, hb⟩, hc⟩, hd⟩ := digits
    exact ((((Passes.refl s).cons (proper hd)).cons (proper hc)).cons (proper hb)).cons (proper ha)
  · cases read

theorem passes_escape {a b c d : Char} {n : Nat} (read : unit16 a b c d = some n) :
    Passes ('\\' :: 'u' :: a :: b :: c :: d :: s) s :=
  ((passes_unit16 read).cons (by decide)).cons (by decide)

theorem passes_stringStep (s : List Char) : (stringStep s).Passes s := by
  fun_cases stringStep s with
  | case1 => trivial
  | case2 s => exact (Passes.refl s).cons (by decide)
  | case3 => trivial
  | case4 a b c d n high _ e f g h t m pair =>
    obtain ⟨k, low, -⟩ := Option.bind_eq_some_iff.mp pair
    exact (passes_escape high).trans (passes_escape low)
  | case5 a b c d n high => exact passes_escape high
  | case6 a b c d s n high => exact passes_escape high
  | case7 a b c d s n high => exact passes_escape high
  | case8 c s _ e known =>
    have proper : c ≠ zero := by
      rintro rfl
      cases known
    exact ((Passes.refl s).cons proper).cons (by decide)
  | case9 => trivial
  | case10 => trivial
  | case11 c s _ _ _ printable =>
    have proper : c ≠ zero := by
      rintro rfl
      exact printable (by decide)
    exact (Passes.refl s).cons proper

theorem passes_stringBody {fuel : Nat} {acc rest : List Char} {t : String}
    (read : stringBody fuel acc s = some (t, rest)) : Passes s rest := by
  induction fuel generalizing acc s with
  | zero => cases read
  | succ fuel ih =>
    have front := passes_stringStep s
    rw [stringBody] at read
    split at read
    · rename_i step
      rw [step] at front
      cases read
      exact front
    · rename_i step
      rw [step] at front
      exact front.trans (ih read)
    · cases read

theorem passes_string {rest : List Char} {t : String} (read : string s = some (t, rest)) :
    Passes s rest := by
  unfold string at read
  split at read
  · exact (passes_stringBody read).cons (by decide)
  · cases read

theorem passes_word {w rest : List Char} (clear : zero ∉ w) (read : word w s = some rest) :
    Passes s rest := by
  unfold word at read
  split at read
  · rename_i lead
    obtain ⟨t, rfl⟩ := List.isPrefixOf_iff_prefix.mp lead
    cases read
    exact ⟨w, by simp, clear⟩
  · cases read

structure Clear (fuel : Nat) : Prop where
  value : ∀ {depth s j rest}, value fuel depth s = some (j, rest) → Passes s rest
  elements : ∀ {depth s es rest}, elements fuel depth s = some (es, rest) → Passes s rest
  members : ∀ {depth s ms rest}, members fuel depth s = some (ms, rest) → Passes s rest

section Clear

variable {fuel depth : Nat} {s rest : List Char}

theorem Clear.value_succ (clear : Clear fuel) {j : Json}
    (read : Json.value (fuel + 1) depth s = some (j, rest)) : Passes s rest := by
  have blank := passes_skipSpace s
  rw [Json.value] at read
  split at read
  · rename_i t front
    rw [front] at blank
    refine blank.trans (Passes.cons (by decide) ((passes_skipSpace t).trans ?_))
    split at read
    · cases read
    split at read
    · rename_i u front
      cases read
      rw [front]
      exact (Passes.refl _).cons (by decide)
    · obtain ⟨⟨ms, u⟩, inner, same⟩ := Option.map_eq_some_iff.mp read
      cases same
      exact clear.members inner
  · rename_i t front
    rw [front] at blank
    refine blank.trans (Passes.cons (by decide) ((passes_skipSpace t).trans ?_))
    split at read
    · cases read
    split at read
    · rename_i u front
      cases read
      rw [front]
      exact (Passes.refl _).cons (by decide)
    · obtain ⟨⟨es, u⟩, inner, same⟩ := Option.map_eq_some_iff.mp read
      cases same
      exact clear.elements inner
  · rename_i t front
    rw [front] at blank
    obtain ⟨⟨v, u⟩, inner, same⟩ := Option.map_eq_some_iff.mp read
    cases same
    exact blank.trans (passes_string inner)
  iterate 3
    · rename_i t front
      rw [front] at blank
      obtain ⟨u, inner, same⟩ := Option.map_eq_some_iff.mp read
      cases same
      exact blank.trans ((passes_word (by decide) inner).cons (by decide))
  · obtain ⟨⟨n, u⟩, inner, same⟩ := Option.map_eq_some_iff.mp read
    cases same
    exact blank.trans (passes_number inner)

theorem Clear.elements_succ (clear : Clear fuel) {es : List Json}
    (read : Json.elements (fuel + 1) depth s = some (es, rest)) : Passes s rest := by
  rw [Json.elements] at read
  obtain ⟨⟨v, t⟩, first, read⟩ := Option.bind_eq_some_iff.mp read
  refine (clear.value first).trans ((passes_skipSpace t).trans ?_)
  dsimp only at read
  split at read
  · rename_i u front
    obtain ⟨⟨vs, w⟩, inner, same⟩ := Option.map_eq_some_iff.mp read
    cases same
    rw [front]
    exact (clear.elements inner).cons (by decide)
  · rename_i u front
    cases read
    rw [front]
    exact (Passes.refl _).cons (by decide)
  · cases read

theorem Clear.members_succ (clear : Clear fuel) {ms : List (String × Json)}
    (read : Json.members (fuel + 1) depth s = some (ms, rest)) : Passes s rest := by
  rw [Json.members] at read
  obtain ⟨⟨key, t⟩, first, read⟩ := Option.bind_eq_some_iff.mp read
  refine (passes_skipSpace s).trans ((passes_string first).trans ((passes_skipSpace t).trans ?_))
  dsimp only at read
  split at read
  · rename_i u front
    obtain ⟨⟨v, w⟩, second, read⟩ := Option.bind_eq_some_iff.mp read
    rw [front]
    refine Passes.cons (by decide) ((clear.value second).trans ((passes_skipSpace w).trans ?_))
    dsimp only at read
    split at read
    · rename_i x front
      obtain ⟨⟨vs, y⟩, inner, same⟩ := Option.map_eq_some_iff.mp read
      cases same
      rw [front]
      exact (clear.members inner).cons (by decide)
    · rename_i x front
      cases read
      rw [front]
      exact (Passes.refl _).cons (by decide)
    · cases read
  · cases read

end Clear

theorem clear (fuel : Nat) : Clear fuel := by
  induction fuel with
  | zero =>
    constructor
    · intro depth s j rest read
      rw [value] at read
      cases read
    · intro depth s es rest read
      rw [elements] at read
      cases read
    · intro depth s ms rest read
      rw [members] at read
      cases read
  | succ fuel ih => exact ⟨ih.value_succ, ih.elements_succ, ih.members_succ⟩

theorem zero_not_mem_of_parse? {s : String} {j : Json} (read : parse? s = some j) : zero ∉ s.toList := by
  unfold parse? at read
  dsimp only at read
  split at read
  · rename_i v rest inner
    split at read
    · rename_i blank
      obtain ⟨front, whole, none⟩ := ((clear _).value inner).trans (passes_skipSpace rest)
      rw [List.isEmpty_iff.mp blank, List.append_nil] at whole
      rw [whole]
      exact none
    · cases read
  · cases read

end Json

/-! ### Bytes -/

namespace Bytes

theorem leadInfo_lo {b lo hi : UInt8} {k : Nat} (info : leadInfo b = some (k, lo, hi)) : 0 < lo := by
  unfold leadInfo at info
  repeat' split at info
  all_goals cases info
  all_goals decide

variable {bs : Bytes}

theorem frontChar_some {b : UInt8} {c : Char} {n : Nat}
    (front : frontChar (b :: bs) = some (c, n)) : (b = 0 → c = Json.zero) ∧ 0 ∉ bs.take (n - 1) := by
  have continues {x : UInt8} (is : isContinuation x = true) : x ≠ 0 := by
    rintro rfl
    cases is
  have bounded {lo hi x : UInt8} {k : Nat} (info : leadInfo b = some (k, lo, hi)) (above : lo ≤ x) :
      x ≠ 0 :=
    (UInt8.ne_of_lt (UInt8.lt_of_lt_of_le (leadInfo_lo info) above)).symm
  unfold frontChar at front
  dsimp only at front
  split at front
  · cases front
    refine ⟨?_, List.not_mem_nil⟩
    rintro rfl
    rfl
  · rename_i large
    have proper : b ≠ 0 := by
      rintro rfl
      exact large (by decide)
    refine ⟨fun zero => absurd zero proper, ?_⟩
    split at front
    · rename_i lo hi x bs info
      split at front
      · rename_i fits
        simp only [Bool.and_eq_true, decide_eq_true_eq] at fits
        cases front
        simpa using (bounded info fits.1).symm
      · cases front
    · rename_i lo hi x y bs info
      split at front
      · rename_i fits
        simp only [Bool.and_eq_true, decide_eq_true_eq] at fits
        cases front
        simpa using ⟨(bounded info fits.1.1).symm, (continues fits.2).symm⟩
      · cases front
    · rename_i lo hi x y z bs info
      split at front
      · rename_i fits
        simp only [Bool.and_eq_true, decide_eq_true_eq] at fits
        cases front
        simpa using ⟨(bounded info fits.1.1.1).symm, (continues fits.1.2).symm, (continues fits.2).symm⟩
      · cases front
    · cases front

theorem zero_mem_charsFrom {fuel : Nat} (enough : bs.length ≤ fuel) (mem : 0 ∈ bs) :
    some Json.zero ∈ (charsFrom fuel bs).map Prod.fst := by
  induction fuel generalizing bs with
  | zero =>
    rw [List.eq_nil_of_length_eq_zero (Nat.le_zero.mp enough)] at mem
    cases mem
  | succ fuel ih =>
    cases bs with
    | nil => cases mem
    | cons b bs =>
      rw [List.length_cons] at enough
      rw [charsFrom]
      split
      · rename_i c n front
        obtain ⟨here, skipped⟩ := frontChar_some front
        rw [List.map_cons, List.mem_cons]
        rcases List.mem_cons.mp mem with zero | later
        · exact .inl (congrArg some (here zero.symm).symm)
        · rw [← List.take_append_drop (n - 1) bs, List.mem_append] at later
          refine .inr (ih ?_ (later.resolve_left skipped))
          rw [List.length_drop]
          omega
      · rename_i front
        rw [List.map_cons, List.mem_cons]
        rcases List.mem_cons.mp mem with rfl | later
        · cases front
        · exact .inr (ih (by omega) later)

theorem zero_mem_toText (mem : 0 ∈ bs) : Json.zero ∈ (toText bs).toList := by
  have found := zero_mem_charsFrom (Nat.le_refl _) mem
  obtain ⟨c, known, zero⟩ := List.mem_map.mp found
  rw [toText, String.toList_ofList]
  refine List.mem_map.mpr ⟨c, known, ?_⟩
  rw [zero]
  rfl

theorem hexDigit_injective : ∀ m < 16, ∀ n < 16, hexDigit m = hexDigit n → m = n := by
  decide

theorem hex_injective {as : Bytes} (same : hex as = hex bs) : as = bs := by
  replace same := String.ofList_injective same
  induction as generalizing bs with
  | nil =>
    cases bs with
    | nil => rfl
    | cons b bs => cases same
  | cons a as ih =>
    cases bs with
    | nil => cases same
    | cons b bs =>
      obtain ⟨high, same⟩ := List.cons.inj same
      obtain ⟨low, rest⟩ := List.cons.inj same
      have ha := a.toNat_lt
      have hb := b.toNat_lt
      have high := hexDigit_injective _ (by omega) _ (by omega) high
      have low := hexDigit_injective _ (by omega) _ (by omega) low
      have first : a = b := UInt8.toNat_inj.mp (by omega)
      rw [first, ih rest]

end Bytes

/-! ### Keys -/

/-- Different texts among these have different digests. -/
def Hash.CollisionFree (texts : List Bytes) : Prop :=
  ∀ a ∈ texts, ∀ b ∈ texts, Hash.content [a] = Hash.content [b] → a = b

namespace Cache

def keyText (release : Release) (document : Bytes) (generated : String) : Bytes :=
  document ++ 0 :: (Bytes.ofString release.fingerprint ++ 0 :: Bytes.ofString generated)

theorem unitKey_eq (release : Release) (document : Bytes) (generated : String) :
    unitKey release document generated =
      Bytes.hex (Hash.content [keyText release document generated]) := by
  simp [unitKey, keyText, Hash.content]

theorem keyText_document {r r' : Release} {d d' : Bytes} {g g' : String} (clear : 0 ∉ d)
    (clear' : 0 ∉ d') (same : keyText r d g = keyText r' d' g') : d = d' := by
  have front {d rest : Bytes} (clear : 0 ∉ d) : (d ++ 0 :: rest).takeWhile (· != 0) = d := by
    rw [List.takeWhile_append_of_pos]
    · simp
    · intro b mem
      exact bne_iff_ne.mpr fun zero => clear (zero ▸ mem)
  rw [← front clear, ← front clear']
  exact congrArg (List.takeWhile (· != 0)) same

theorem unitKey_document {texts : List Bytes} (free : Hash.CollisionFree texts) {r r' : Release}
    {d d' : Bytes} {g g' : String} (known : keyText r d g ∈ texts) (known' : keyText r' d' g' ∈ texts)
    {j j' : Json} (read : Json.parse? (Bytes.toText d) = some j)
    (read' : Json.parse? (Bytes.toText d') = some j') (same : unitKey r d g = unitKey r' d' g') :
    d = d' := by
  rw [unitKey_eq, unitKey_eq] at same
  have texts := free _ known _ known' (Bytes.hex_injective same)
  refine keyText_document ?_ ?_ texts
  · exact fun zero => Json.zero_not_mem_of_parse? read (Bytes.zero_mem_toText zero)
  · exact fun zero => Json.zero_not_mem_of_parse? read' (Bytes.zero_mem_toText zero)

end Cache

end Tenure
