import Tenure.Text.Bytes

/- Reading back what was encoded: the bytes of a text are the characters of the text again. -/
namespace Tenure.Bytes

def ofChars (cs : List Char) : Bytes := cs.flatMap String.utf8EncodeChar

theorem ofString_eq (s : String) : ofString s = ofChars s.toList := rfl

@[simp] theorem ofChars_nil : ofChars [] = [] := rfl

@[simp] theorem ofChars_cons (c : Char) (cs : List Char) :
    ofChars (c :: cs) = String.utf8EncodeChar c ++ ofChars cs := List.flatMap_cons

theorem ofChars_append (cs ds : List Char) : ofChars (cs ++ ds) = ofChars cs ++ ofChars ds :=
  List.flatMap_append

theorem ofString_length (s : String) : (ofString s).length = s.utf8ByteSize := by
  have bytes : s.toByteArray = (ofString s).toByteArray := by
    rw [ofString, ← List.utf8Encode, ← String.toByteArray_ofList, String.ofList_toList]
  rw [String.utf8ByteSize, bytes, List.size_toByteArray]

theorem leadInfo_two : ∀ n < 0xE0, 0xC2 ≤ n → leadInfo (UInt8.ofNat n) = some (1, 0x80, 0xBF) := by
  decide +kernel

theorem leadInfo_three : ∀ n < 0xF0, 0xE0 ≤ n → leadInfo (UInt8.ofNat n) =
    some (2, if n = 0xE0 then 0xA0 else 0x80, if n = 0xED then 0x9F else 0xBF) := by
  decide +kernel

theorem leadInfo_four : ∀ n < 0xF5, 0xF0 ≤ n → leadInfo (UInt8.ofNat n) =
    some (3, if n = 0xF0 then 0x90 else 0x80, if n = 0xF4 then 0x8F else 0xBF) := by
  decide +kernel

variable {n : Nat} {cs : List Char}

theorem le_byte {k : UInt8} (h : k.toNat ≤ n) (small : n < 256) : k ≤ UInt8.ofNat n := by
  rw [UInt8.le_iff_toNat_le, UInt8.toNat_ofNat']
  omega

theorem byte_le {k : UInt8} (h : n ≤ k.toNat) : UInt8.ofNat n ≤ k := by
  have := k.toNat_lt
  rw [UInt8.le_iff_toNat_le, UInt8.toNat_ofNat']
  omega

theorem lead_large (lo : 0x80 ≤ n) (hi : n < 256) : ¬UInt8.ofNat n < 0x80 :=
  UInt8.not_lt.mpr (le_byte lo hi)

section Tail

variable (n : Nat)

theorem tail_lo : (0x80 : UInt8) ≤ UInt8.ofNat (n % 64 + 0x80) :=
  le_byte (Nat.le_add_left _ _) (by omega)

theorem tail_hi : UInt8.ofNat (n % 64 + 0x80) ≤ 0xBF :=
  byte_le (Nat.add_le_add_right (Nat.le_of_lt_succ (Nat.mod_lt n (by decide))) 0x80)

theorem tailBits_tail : tailBits (UInt8.ofNat (n % 64 + 0x80)) = n % 64 := by
  rw [tailBits, UInt8.toNat_ofNat']
  omega

theorem isContinuation_tail : isContinuation (UInt8.ofNat (n % 64 + 0x80)) = true := by
  rw [isContinuation, Bool.and_eq_true, decide_eq_true_eq, decide_eq_true_eq]
  exact ⟨tail_lo n, tail_hi n⟩

theorem tail_between {p q : Prop} [Decidable p] [Decidable q] {a b : UInt8}
    (lo : p → a.toNat ≤ n % 64 + 0x80) (hi : q → n % 64 + 0x80 ≤ b.toNat) :
    (decide ((if p then a else 0x80) ≤ UInt8.ofNat (n % 64 + 0x80)) &&
      decide (UInt8.ofNat (n % 64 + 0x80) ≤ if q then b else 0xBF)) = true := by
  rw [Bool.and_eq_true, decide_eq_true_eq, decide_eq_true_eq]
  constructor
  · split
    · exact le_byte (lo ‹p›) (by omega)
    · exact tail_lo n
  · split
    · exact byte_le (hi ‹q›)
    · exact tail_hi n

end Tail

theorem char_bounds (c : Char) :
    c.val.toNat < 0xD800 ∨ 0xDFFF < c.val.toNat ∧ c.val.toNat < 0x110000 := c.valid

theorem frontChar_encode (c : Char) (bs : Bytes) :
    frontChar (String.utf8EncodeChar c ++ bs) = some (c, (String.utf8EncodeChar c).length) := by
  have bounds := char_bounds c
  have same : ∀ n, n = c.val.toNat → Char.ofNat n = c := by
    rintro _ rfl
    exact Char.ofNat_toNat c
  unfold String.utf8EncodeChar
  generalize c.val.toNat = v at bounds same
  dsimp only
  split
  · rename_i ascii
    have small : UInt8.ofNat v < 0x80 := UInt8.lt_of_le_of_lt (byte_le (k := 0x7F) ascii) (by decide)
    simp only [List.cons_append, List.nil_append, frontChar, small, if_true, List.length_cons,
      List.length_nil, UInt8.toNat_ofNat']
    rw [same _ (by omega)]
  · split
    · have lead := lead_large (n := v / 64 % 32 + 0xC0) (by omega) (by omega)
      simp only [List.cons_append, List.nil_append, frontChar, lead, if_false,
        leadInfo_two (v / 64 % 32 + 0xC0) (by omega) (by omega), tail_lo, tail_hi, decide_true,
        Bool.and_self, if_true, tailBits_tail, UInt8.toNat_ofNat', List.length_cons, List.length_nil]
      rw [same _ (by omega)]
    · split
      · have lead := lead_large (n := v / 4096 % 16 + 0xE0) (by omega) (by omega)
        simp only [List.cons_append, List.nil_append, frontChar, lead, if_false,
          leadInfo_three (v / 4096 % 16 + 0xE0) (by omega) (by omega), isContinuation_tail,
          Bool.and_true, tailBits_tail, UInt8.toNat_ofNat', List.length_cons, List.length_nil]
        rw [if_pos (tail_between _ (fun low => Nat.le_trans (m := 0xA0) (by decide) (by omega))
          (fun high => Nat.le_trans (m := 0x9F) (by omega) (by decide))), same _ (by omega)]
      · have lead := lead_large (n := v / 262144 % 8 + 0xF0) (by omega) (by omega)
        simp only [List.cons_append, List.nil_append, frontChar, lead, if_false,
          leadInfo_four (v / 262144 % 8 + 0xF0) (by omega) (by omega), isContinuation_tail,
          Bool.and_true, tailBits_tail, UInt8.toNat_ofNat', List.length_cons, List.length_nil]
        rw [if_pos (tail_between _ (fun low => Nat.le_trans (m := 0x90) (by decide) (by omega))
          (fun high => Nat.le_trans (m := 0x8F) (by omega) (by decide))), same _ (by omega)]

theorem charsFrom_ofChars {fuel : Nat} (enough : (ofChars cs).length ≤ fuel) :
    charsFrom fuel (ofChars cs) = cs.map fun c => (some c, (String.utf8EncodeChar c).length) := by
  induction cs generalizing fuel with
  | nil => cases fuel <;> rfl
  | cons c cs ih =>
    have front := frontChar_encode c (ofChars cs)
    rw [ofChars_cons] at enough ⊢
    cases encoded : String.utf8EncodeChar c with
    | nil => exact absurd encoded String.utf8EncodeChar_ne_nil
    | cons b bs =>
      rw [encoded, List.cons_append] at front enough
      rw [List.length_cons, List.length_append] at enough
      cases fuel with
      | zero => omega
      | succ fuel =>
        rw [List.cons_append, charsFrom, front, List.map_cons, encoded]
        simp only [List.length_cons, Nat.add_sub_cancel, List.drop_left]
        rw [ih (by omega)]

theorem chars_ofChars (cs : List Char) :
    chars (ofChars cs) = cs.map fun c => (some c, (String.utf8EncodeChar c).length) :=
  charsFrom_ofChars (Nat.le_refl _)

theorem newline_eq_byte (small : n < 256) : newline = UInt8.ofNat n ↔ n = 10 := by
  have ten : newline.toNat = 10 := rfl
  rw [← UInt8.toNat_inj, UInt8.toNat_ofNat', ten]
  omega

theorem newline_mem_encode {c : Char} : newline ∈ String.utf8EncodeChar c ↔ c = '\n' := by
  have newline_val : c = '\n' ↔ c.val.toNat = 10 := by
    rw [Char.ext_iff, ← UInt32.toNat_inj]
    rfl
  rw [newline_val]
  unfold String.utf8EncodeChar
  generalize c.val.toNat = v
  dsimp only
  split
  · simp only [List.mem_cons, List.not_mem_nil, or_false]
    exact newline_eq_byte (by omega)
  · have high : ∀ n, 0x80 ≤ n → n < 256 → newline ≠ UInt8.ofNat n := by
      intro n lo hi
      rw [ne_eq, newline_eq_byte hi]
      omega
    refine iff_of_false ?_ (by omega)
    split
    · simp only [List.mem_cons, List.not_mem_nil, or_false, not_or]
      exact ⟨high _ (by omega) (by omega), high _ (by omega) (by omega)⟩
    · split
      · simp only [List.mem_cons, List.not_mem_nil, or_false, not_or]
        exact ⟨high _ (by omega) (by omega), high _ (by omega) (by omega),
          high _ (by omega) (by omega)⟩
      · simp only [List.mem_cons, List.not_mem_nil, or_false, not_or]
        exact ⟨high _ (by omega) (by omega), high _ (by omega) (by omega),
          high _ (by omega) (by omega), high _ (by omega) (by omega)⟩

theorem newline_mem_ofChars : newline ∈ ofChars cs ↔ '\n' ∈ cs := by
  simp [ofChars, newline_mem_encode]

theorem ofChars_newline : ofChars ['\n'] = [newline] := by decide

end Tenure.Bytes
