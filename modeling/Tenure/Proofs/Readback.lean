import Tenure.Json.Read
import Tenure.Json.Write
import Mathlib.Data.List.DropRight

/- A document that is written with one member a line is read back as it was. The readers are
   followed on a text with more text behind it; all a value needs of what follows is that it does
   not go on with a number. -/
namespace Tenure.Json

def Ends (rest : List Char) : Prop :=
  ∀ c ∈ rest.head?, isDigit c = false ∧ c ≠ '.' ∧ c ≠ 'e' ∧ c ≠ 'E'

theorem ends_cons {c : Char} {rest : List Char}
    (h : isDigit c = false ∧ c ≠ '.' ∧ c ≠ 'e' ∧ c ≠ 'E') : Ends (c :: rest) := by
  intro d first
  cases Option.mem_some.mp first
  exact h

/-! ### Texts -/

section Texts

theorem hexDigit_value : ∀ n < 16,
    isHexDigit (Bytes.hexDigit n) = true ∧ hexDigitValue (Bytes.hexDigit n) = n := by
  decide

theorem unit16_hexDigits (n : Nat) (small : n < 65536) :
    unit16 (Bytes.hexDigit (n / 4096 % 16)) (Bytes.hexDigit (n / 256 % 16))
      (Bytes.hexDigit (n / 16 % 16)) (Bytes.hexDigit (n % 16)) = some n := by
  have digit (k : Nat) := hexDigit_value (k % 16) (Nat.mod_lt _ (by decide))
  simp only [unit16, (digit _).1, (digit _).2, Bool.and_self, if_true]
  congr 1
  omega

theorem toNat_bounds (c : Char) : c.toNat < 0xD800 ∨ 0xDFFF < c.toNat ∧ c.toNat < 0x110000 := c.valid

theorem stringStep_number (c : Char) (small : c.toNat < 65536) (rest : List Char) :
    stringStep ('\\' :: 'u' :: Bytes.hexDigit (c.toNat / 4096 % 16) ::
      Bytes.hexDigit (c.toNat / 256 % 16) :: Bytes.hexDigit (c.toNat / 16 % 16) ::
      Bytes.hexDigit (c.toNat % 16) :: rest) = .char c rest := by
  have whole : isSurrogate c.toNat = false := by
    have := toNat_bounds c
    simp only [isSurrogate, Bool.and_eq_false_iff, decide_eq_false_iff_not]
    omega
  simp only [stringStep, unit16_hexDigits _ small, whole, Char.ofNat_toNat]
  rfl

theorem stringStep_plain {c : Char} (large : ¬c.toNat < 0x20) (quote : c ≠ '"') (slash : c ≠ '\\')
    (rest : List Char) : stringStep (c :: rest) = .char c rest := by
  unfold stringStep
  split
  all_goals simp_all

theorem stringStep_escaped (c : Char) (rest : List Char) :
    stringStep (escapedChar true c ++ rest) = .char c rest := by
  unfold escapedChar
  dsimp only
  split
  iterate 5 rfl
  rename_i quote slash _ _ _
  split
  · rename_i backspace
    rw [← Char.ofNat_toNat c, backspace]
    rfl
  split
  · rename_i feed
    rw [← Char.ofNat_toNat c, feed]
    rfl
  split
  · exact stringStep_number c (by omega) rest
  split
  · exact stringStep_number c (by omega) rest
  split
  · rename_i special
    obtain ⟨-, rfl | rfl | rfl⟩ := special
    all_goals rfl
  · exact stringStep_plain ‹_› quote slash rest

theorem escapedChar_ne_nil (c : Char) : 0 < (escapedChar true c).length := by
  unfold escapedChar
  dsimp only
  repeat' split
  all_goals exact Nat.succ_pos _

theorem length_le_escaped (cs : List Char) :
    cs.length ≤ (cs.flatMap (escapedChar true)).length := by
  induction cs with
  | nil => exact Nat.le_refl 0
  | cons c cs ih =>
    have := escapedChar_ne_nil c
    rw [List.flatMap_cons, List.length_append, List.length_cons]
    omega

theorem stringBody_escaped (cs acc rest : List Char) (fuel : Nat) (enough : cs.length < fuel) :
    stringBody fuel acc (cs.flatMap (escapedChar true) ++ '"' :: rest) =
      some (String.ofList (acc.reverse ++ cs), rest) := by
  induction cs generalizing acc fuel with
  | nil =>
    obtain ⟨fuel, rfl⟩ := Nat.exists_eq_add_of_lt enough
    rw [List.append_nil]
    rfl
  | cons c cs ih =>
    obtain ⟨fuel, rfl⟩ := Nat.exists_eq_succ_of_ne_zero (Nat.ne_zero_of_lt enough)
    rw [List.flatMap_cons, List.append_assoc, stringBody, stringStep_escaped]
    simp only
    rw [ih (c :: acc) fuel (Nat.lt_of_succ_lt_succ enough), List.reverse_cons, List.append_assoc]
    rfl

theorem escaped_toList (s : String) :
    (escaped true s).toList = '"' :: (s.toList.flatMap (escapedChar true) ++ ['"']) := by
  rw [escaped, String.toList_ofList]
  rfl

theorem string_escaped (s : String) (rest : List Char) :
    string ((escaped true s).toList ++ rest) = some (s, rest) := by
  rw [escaped_toList, List.cons_append, List.append_assoc, List.singleton_append, string]
  rw [stringBody_escaped, List.reverse_nil, List.nil_append, String.ofList_toList]
  have := length_le_escaped s.toList
  rw [List.length_append]
  omega

end Texts

/-! ### Numbers -/

section Numbers

theorem isDigit_eq (c : Char) : isDigit c = c.isDigit := by
  rw [isDigit, Char.isDigit, Bool.eq_iff_iff]
  simp only [Bool.and_eq_true, decide_eq_true_eq, Char.le_def]

theorem digits_written (n : Nat) : ∀ c ∈ (toString n).toList, isDigit c = true := by
  intro c mem
  rw [Nat.toString_eq_repr, Nat.toList_repr] at mem
  rw [isDigit_eq]
  exact Nat.isDigit_of_mem_toDigits (b := 10) (by decide) (by decide) mem

theorem takeWhile_digits {ds rest : List Char} (digits : ∀ c ∈ ds, isDigit c = true)
    (ends : Ends rest) : (ds ++ rest).takeWhile isDigit = ds ∧ (ds ++ rest).dropWhile isDigit = rest := by
  rw [List.takeWhile_append_of_pos digits, List.dropWhile_append_of_pos digits]
  cases rest with
  | nil => simp
  | cons c rest => simp [(ends c rfl).1]

theorem fraction_ends {rest : List Char} (ends : Ends rest) : fraction rest = some ([], rest) := by
  unfold fraction
  split
  · exact absurd rfl (ends _ rfl).2.1
  · rfl

theorem exponent_ends {rest : List Char} (ends : Ends rest) : exponent rest = some ([], rest) := by
  cases rest with
  | nil => rfl
  | cons c rest =>
    obtain ⟨-, -, lower, upper⟩ := ends c rfl
    rw [exponent.eq_def]
    exact if_neg (not_or.mpr ⟨lower, upper⟩)

theorem digitChar_ne_zero : ∀ n < 10, n ≠ 0 → n.digitChar ≠ '0' := by
  decide

theorem first_digit (n : Nat) : ∃ d ds, (toString n).toList = d :: ds ∧ isDigit d = true := by
  have digits := digits_written n
  have nonempty : (toString n).toList ≠ [] := by
    rw [Nat.toString_eq_repr, Nat.toList_repr]
    exact Nat.toDigits_ne_nil
  obtain ⟨d, ds, first⟩ := List.exists_cons_of_ne_nil nonempty
  exact ⟨d, ds, first, digits d (first ▸ List.mem_cons_self)⟩

theorem not_mark {d c : Char} (digit : isDigit d = true) (mark : isDigit c = false) : d ≠ c := by
  rintro rfl
  exact absurd digit (by rw [mark]; decide)

theorem not_space {d : Char} (digit : isDigit d = true) : isSpace d = false := by
  simp [isSpace, not_mark digit (show isDigit ' ' = false by decide),
    not_mark digit (show isDigit '\t' = false by decide),
    not_mark digit (show isDigit '\n' = false by decide),
    not_mark digit (show isDigit '\r' = false by decide)]

theorem toDigits_leading (n : Nat) (pos : n ≠ 0) : ∃ d ds, Nat.toDigits 10 n = d :: ds ∧ d ≠ '0' := by
  induction n using Nat.strongRecOn with
  | ind n ih =>
    rw [Nat.toDigits_eq_if (by decide)]
    split
    · rename_i small
      exact ⟨_, _, rfl, digitChar_ne_zero n small pos⟩
    · obtain ⟨d, ds, first, ne⟩ := ih (n / 10) (by omega) (by omega)
      refine ⟨d, ds ++ [(n % 10).digitChar], ?_, ne⟩
      rw [first]
      rfl

theorem number_digits {d : Char} {ds rest : List Char} (digits : ∀ c ∈ d :: ds, isDigit c = true)
    (leading : d = '0' → ds = []) (ends : Ends rest) :
    number (d :: ds ++ rest) = some (String.ofList (d :: ds), rest) := by
  have unsigned : d ≠ '-' := by
    rintro rfl
    exact absurd (digits '-' List.mem_cons_self) (by decide)
  by_cases zero : d = '0'
  · subst zero
    cases leading rfl
    simp [number, fraction_ends ends, exponent_ends ends]
  · have whole : digits1 (d :: (ds ++ rest)) = some (d :: ds, rest) := by
      obtain ⟨taken, dropped⟩ := takeWhile_digits digits ends
      rw [List.cons_append] at taken dropped
      rw [digits1, taken, dropped]
      rfl
    simp [number, unsigned, zero, whole, fraction_ends ends, exponent_ends ends]

theorem number_written (n : Nat) {rest : List Char} (ends : Ends rest) :
    number ((toString n).toList ++ rest) = some (toString n, rest) := by
  have digits := digits_written n
  have whole : toString n = String.ofList (toString n).toList := String.ofList_toList.symm
  obtain ⟨d, ds, first, leading⟩ : ∃ d ds, (toString n).toList = d :: ds ∧ (d = '0' → ds = []) := by
    rw [Nat.toString_eq_repr, Nat.toList_repr]
    by_cases zero : n = 0
    · subst zero
      exact ⟨'0', [], rfl, fun _ => rfl⟩
    · obtain ⟨d, ds, first, nonzero⟩ := toDigits_leading n zero
      exact ⟨d, ds, first, fun is => absurd is nonzero⟩
  rw [whole, String.toList_ofList]
  rw [first] at digits ⊢
  exact number_digits digits leading ends

end Numbers

/-! ### Values -/

section Values

def Plain : Nat → Json → Prop
  | _, .null | _, .bool _ | _, .str _ => True
  | _, .num literal => ∃ n : Nat, literal = toString n
  | _, .blob _ => False
  | 0, .arr _ | 0, .obj _ => False
  | depth + 1, .arr xs => ∀ x ∈ xs, Plain depth x
  | depth + 1, .obj ms => ∀ m ∈ ms, Plain depth m.2

theorem Plain.literal {depth : Nat} {literal : String} (plain : Plain depth (.num literal)) :
    ∃ n : Nat, literal = toString n := by
  cases depth <;> exact plain

variable {depth : Nat} {j : Json}

theorem Plain.blob {bs : Bytes} (plain : Plain depth (.blob bs)) : False := by
  cases depth <;> exact plain

theorem newLine_toList (k : Nat) : (newLine k).toList = '\n' :: List.replicate (2 * k) ' ' := by
  simp [newLine]

theorem skipSpace_newLine (k : Nat) (s : List Char) :
    skipSpace ((newLine k).toList ++ s) = skipSpace s := by
  rw [skipSpace, newLine_toList, List.dropWhile_append_of_pos]
  · rfl
  · intro c mem
    rcases List.mem_cons.mp mem with rfl | mem
    · rfl
    · cases List.eq_of_mem_replicate mem
      rfl

theorem newLine_ends (k : Nat) (s : List Char) : Ends ((newLine k).toList ++ s) := by
  rw [newLine_toList]
  exact ends_cons (by decide)

theorem skipSpace_solid {c : Char} (solid : isSpace c = false) (s : List Char) :
    skipSpace (c :: s) = c :: s := by
  simp [skipSpace, solid]

theorem skipSpace_twice {s t : List Char} (met : skipSpace s = t) : skipSpace t = t := by
  rw [← met]
  exact List.dropWhile_idempotent isSpace s

def lines (k : Nat) (ts : List String) : List Char :=
  (("," ++ newLine (k + 1)).intercalate ts).toList

theorem lines_singleton (k : Nat) (t : String) : lines k [t] = t.toList := by
  rw [lines, String.intercalate_singleton]

theorem lines_cons (k : Nat) (t u : String) (ts : List String) : lines k (t :: u :: ts) =
    t.toList ++ ',' :: ((newLine (k + 1)).toList ++ lines k (u :: ts)) := by
  simp [lines, String.intercalate_cons_cons]

theorem arr_text (k : Nat) (x : Json) (xs : List Json) : (indentedAt k (.arr (x :: xs))).toList =
    '[' :: ((newLine (k + 1)).toList ++ (lines k (indentedAll (k + 1) (x :: xs)) ++
      ((newLine k).toList ++ [']']))) := by
  simp [indentedAt, lines]

theorem obj_text (k : Nat) (m : String × Json) (ms : List (String × Json)) :
    (indentedAt k (.obj (m :: ms))).toList =
    '{' :: ((newLine (k + 1)).toList ++ (lines k (indentedMembers (k + 1) (m :: ms)) ++
      ((newLine k).toList ++ ['}']))) := by
  simp [indentedAt, lines]

theorem member_text (k : Nat) (key : String) (j : Json) :
    (escaped true key ++ ": " ++ indentedAt k j).toList =
      (escaped true key).toList ++ ':' :: ' ' :: (indentedAt k j).toList := by
  simp

theorem indentedAt_head (k : Nat) (plain : Plain depth j) :
    ∃ c t, (indentedAt k j).toList = c :: t ∧ isSpace c = false ∧ c ≠ ']' := by
  cases j with
  | null => exact ⟨'n', ['u', 'l', 'l'], by simp [indentedAt], by decide⟩
  | bool b =>
    cases b
    · exact ⟨'f', ['a', 'l', 's', 'e'], by simp [indentedAt], by decide⟩
    · exact ⟨'t', ['r', 'u', 'e'], by simp [indentedAt], by decide⟩
  | str s => exact ⟨'"', _, by rw [indentedAt, escaped_toList], by decide⟩
  | num literal =>
    obtain ⟨n, rfl⟩ := plain.literal
    obtain ⟨d, ds, first, digit⟩ := first_digit n
    exact ⟨d, ds, first, not_space digit, not_mark digit (by decide)⟩
  | blob bs => exact plain.blob.elim
  | arr xs =>
    cases xs with
    | nil => exact ⟨'[', [']'], by simp [indentedAt], by decide⟩
    | cons x xs => exact ⟨'[', _, arr_text k x xs, by decide⟩
  | obj ms =>
    cases ms with
    | nil => exact ⟨'{', ['}'], by simp [indentedAt], by decide⟩
    | cons m ms => exact ⟨'{', _, obj_text k m ms, by decide⟩

theorem skipSpace_indentedAt (k : Nat) (plain : Plain depth j) (rest : List Char) :
    skipSpace ((indentedAt k j).toList ++ rest) = (indentedAt k j).toList ++ rest := by
  obtain ⟨c, t, text, solid, -⟩ := indentedAt_head k plain
  rw [text]
  exact skipSpace_solid solid _

theorem lines_head (k : Nat) (t : String) (ts : List String) :
    ∃ rest, lines k (t :: ts) = t.toList ++ rest := by
  cases ts with
  | nil => exact ⟨[], by rw [lines_singleton, List.append_nil]⟩
  | cons u ts => exact ⟨_, lines_cons k t u ts⟩

theorem skipSpace_elements (k : Nat) {x : Json} (plain : Plain depth x)
    (xs : List Json) (rest : List Char) :
    skipSpace ((newLine (k + 1)).toList ++ (lines k (indentedAll (k + 1) (x :: xs)) ++ rest)) =
      lines k (indentedAll (k + 1) (x :: xs)) ++ rest := by
  obtain ⟨t, text⟩ := lines_head k (indentedAt (k + 1) x) (indentedAll (k + 1) xs)
  rw [skipSpace_newLine, indentedAll, text, List.append_assoc]
  exact skipSpace_indentedAt (k + 1) plain _

theorem lines_members (k : Nat) (m : String × Json) (ms : List (String × Json)) :
    ∃ t, lines k (indentedMembers (k + 1) (m :: ms)) = '"' :: t := by
  obtain ⟨key, x⟩ := m
  obtain ⟨t, text⟩ := lines_head k (escaped true key ++ ": " ++ indentedAt (k + 1) x)
    (indentedMembers (k + 1) ms)
  rw [indentedMembers, text, member_text, escaped_toList]
  exact ⟨_, rfl⟩

theorem skipSpace_members (k : Nat) (m : String × Json) (ms : List (String × Json))
    (rest : List Char) :
    skipSpace ((newLine (k + 1)).toList ++ (lines k (indentedMembers (k + 1) (m :: ms)) ++ rest)) =
      lines k (indentedMembers (k + 1) (m :: ms)) ++ rest := by
  obtain ⟨t, text⟩ := lines_members k m ms
  rw [skipSpace_newLine, text]
  exact skipSpace_solid (by decide) _

/-- The value is read back with as many steps as it has characters, whatever ends it. -/
def Reads (depth : Nat) (j : Json) : Prop :=
  ∀ (k fuel : Nat) (s rest : List Char), Ends rest → (indentedAt k j).toList.length ≤ fuel →
    skipSpace s = (indentedAt k j).toList ++ rest → value fuel depth s = some (j, rest)

theorem elements_written (depth k : Nat) (x : Json) (xs : List Json)
    (plain : ∀ y ∈ x :: xs, Plain depth y) (reads : ∀ y ∈ x :: xs, Reads depth y) (fuel : Nat)
    (s rest : List Char) (enough : (lines k (indentedAll (k + 1) (x :: xs))).length < fuel)
    (text : skipSpace s =
      lines k (indentedAll (k + 1) (x :: xs)) ++ ((newLine k).toList ++ ']' :: rest)) :
    elements fuel depth s = some (x :: xs, rest) := by
  induction xs generalizing x s fuel with
  | nil =>
    obtain ⟨fuel, rfl⟩ : ∃ f, fuel = f + 1 := ⟨fuel - 1, by omega⟩
    rw [indentedAll, indentedAll, lines_singleton] at text enough
    have front := reads x (by simp) _ fuel s _ (newLine_ends _ _) (by omega) text
    rw [elements, front]
    simp only [bind, Option.bind, skipSpace_newLine, skipSpace_solid (c := ']') (by decide)]
  | cons y ys ih =>
    obtain ⟨fuel, rfl⟩ : ∃ f, fuel = f + 1 := ⟨fuel - 1, by omega⟩
    rw [indentedAll, indentedAll, lines_cons, ← indentedAll] at text enough
    simp only [List.append_assoc, List.cons_append] at text
    simp only [List.length_append, List.length_cons] at enough
    have front := reads x (by simp) _ fuel s _ (ends_cons (by decide)) (by omega) text
    have tail := ih y (fun z mem => plain z (List.mem_cons_of_mem x mem))
      (fun z mem => reads z (List.mem_cons_of_mem x mem)) fuel _ (by omega)
      (skipSpace_elements k (plain y (by simp)) ys ((newLine k).toList ++ ']' :: rest))
    rw [elements, front]
    simp only [bind, Option.bind, skipSpace_solid (c := ',') (by decide), tail, Option.map_some]

theorem members_written (depth k : Nat) (m : String × Json) (ms : List (String × Json))
    (plain : ∀ e ∈ m :: ms, Plain depth e.2) (reads : ∀ e ∈ m :: ms, Reads depth e.2) (fuel : Nat)
    (s rest : List Char) (enough : (lines k (indentedMembers (k + 1) (m :: ms))).length < fuel)
    (text : skipSpace s =
      lines k (indentedMembers (k + 1) (m :: ms)) ++ ((newLine k).toList ++ '}' :: rest)) :
    members fuel depth s = some (m :: ms, rest) := by
  induction ms generalizing m s fuel with
  | nil =>
    obtain ⟨fuel, rfl⟩ : ∃ f, fuel = f + 1 := ⟨fuel - 1, by omega⟩
    obtain ⟨key, x⟩ := m
    rw [indentedMembers, indentedMembers, lines_singleton, member_text] at text enough
    simp only [List.append_assoc, List.cons_append] at text
    simp only [List.length_append, List.length_cons] at enough
    have here : Reads depth x := reads (key, x) (by simp)
    have front := here _ fuel (' ' :: _) _ (newLine_ends k ('}' :: rest)) (by omega)
      (skipSpace_indentedAt (k + 1) (plain (key, x) (by simp)) _)
    rw [members, text, string_escaped]
    simp only [bind, Option.bind, skipSpace_solid (c := ':') (by decide), front, skipSpace_newLine,
      skipSpace_solid (c := '}') (by decide)]
  | cons n ns ih =>
    obtain ⟨fuel, rfl⟩ : ∃ f, fuel = f + 1 := ⟨fuel - 1, by omega⟩
    obtain ⟨key, x⟩ := m
    obtain ⟨next, y⟩ := n
    rw [indentedMembers, indentedMembers, lines_cons, ← indentedMembers, member_text] at text enough
    simp only [List.append_assoc, List.cons_append] at text
    simp only [List.length_append, List.length_cons] at enough
    have here : Reads depth x := reads (key, x) (by simp)
    have front (behind : List Char) := here _ fuel (' ' :: _) (',' :: behind)
      (ends_cons (by decide)) (by omega) (skipSpace_indentedAt (k + 1) (plain (key, x) (by simp)) _)
    have tail := ih (next, y) (fun e mem => plain e (List.mem_cons_of_mem _ mem))
      (fun e mem => reads e (List.mem_cons_of_mem _ mem)) fuel _ (by omega)
      (skipSpace_members k (next, y) ns ((newLine k).toList ++ '}' :: rest))
    rw [members, text, string_escaped]
    simp only [bind, Option.bind, skipSpace_solid (c := ':') (by decide), front,
      skipSpace_solid (c := ',') (by decide), tail, Option.map_some]

theorem indentedAt_length_pos (k : Nat) (plain : Plain depth j) :
    0 < (indentedAt k j).toList.length := by
  obtain ⟨c, t, text, -⟩ := indentedAt_head k plain
  rw [text]
  exact Nat.succ_pos _

theorem reads_atom (plain : Plain depth j) (atom : ∀ xs, j ≠ .arr xs)
    (atom' : ∀ ms, j ≠ .obj ms) : Reads depth j := by
  intro k fuel s rest ends enough text
  have pos := indentedAt_length_pos k plain
  obtain ⟨fuel, rfl⟩ : ∃ f, fuel = f + 1 := ⟨fuel - 1, by omega⟩
  rw [value, text]
  cases j with
  | null => simp [indentedAt, word]
  | bool b => cases b <;> simp [indentedAt, word]
  | str t =>
    have front := string_escaped t rest
    rw [escaped_toList, List.cons_append] at front
    rw [indentedAt, escaped_toList, List.cons_append]
    simp only [front, Option.map_some]
  | num literal =>
    obtain ⟨n, rfl⟩ := plain.literal
    have front := number_written n ends
    obtain ⟨d, ds, first, digit⟩ := first_digit n
    rw [first, List.cons_append] at front
    rw [indentedAt, first, List.cons_append]
    split
    any_goals exact absurd (List.cons.inj ‹_›).1 (not_mark digit (by decide))
    rw [front]
    rfl
  | blob bs => exact plain.blob.elim
  | arr xs => exact absurd rfl (atom xs)
  | obj ms => exact absurd rfl (atom' ms)

theorem reads_arr {xs : List Json} (plain : ∀ x ∈ xs, Plain depth x)
    (reads : ∀ x ∈ xs, Reads depth x) : Reads (depth + 1) (.arr xs) := by
  intro k fuel s rest ends enough text
  have whole : Plain (depth + 1) (.arr xs) := plain
  have pos := indentedAt_length_pos k whole
  obtain ⟨fuel, rfl⟩ : ∃ f, fuel = f + 1 := ⟨fuel - 1, by omega⟩
  rw [value, text]
  cases xs with
  | nil => simp [indentedAt, skipSpace, isSpace]
  | cons x xs =>
    rw [arr_text] at enough ⊢
    simp only [List.length_append, List.length_cons] at enough
    have met := skipSpace_elements k (plain x List.mem_cons_self) xs
      ((newLine k).toList ++ ']' :: rest)
    have inner := elements_written depth k x xs plain reads fuel _ rest (by omega)
      (skipSpace_twice met)
    simp only [List.append_assoc, List.cons_append, List.nil_append, met]
    rw [if_neg (Nat.succ_ne_zero depth)]
    split
    · rename_i closed
      obtain ⟨t, front⟩ := lines_head k (indentedAt (k + 1) x) (indentedAll (k + 1) xs)
      obtain ⟨c, u, first, -, opened⟩ := indentedAt_head (k + 1) (plain x List.mem_cons_self)
      rw [indentedAll, front, first] at closed
      exact absurd (List.cons.inj closed).1 opened
    · rw [Nat.add_sub_cancel, inner]
      rfl

theorem reads_obj {ms : List (String × Json)} (plain : ∀ m ∈ ms, Plain depth m.2)
    (reads : ∀ m ∈ ms, Reads depth m.2) : Reads (depth + 1) (.obj ms) := by
  intro k fuel s rest ends enough text
  have whole : Plain (depth + 1) (.obj ms) := plain
  have pos := indentedAt_length_pos k whole
  obtain ⟨fuel, rfl⟩ : ∃ f, fuel = f + 1 := ⟨fuel - 1, by omega⟩
  rw [value, text]
  cases ms with
  | nil => simp [indentedAt, skipSpace, isSpace]
  | cons m ms =>
    rw [obj_text] at enough ⊢
    simp only [List.length_append, List.length_cons] at enough
    have met := skipSpace_members k m ms ((newLine k).toList ++ '}' :: rest)
    have inner := members_written depth k m ms plain reads fuel _ rest (by omega)
      (skipSpace_twice met)
    simp only [List.append_assoc, List.cons_append, List.nil_append, met]
    rw [if_neg (Nat.succ_ne_zero depth)]
    split
    · rename_i closed
      obtain ⟨t, front⟩ := lines_members k m ms
      rw [front] at closed
      exact absurd (List.cons.inj closed).1 (by decide)
    · rw [Nat.add_sub_cancel, inner]
      rfl

theorem reads_of_plain (depth : Nat) (j : Json) (plain : Plain depth j) : Reads depth j := by
  induction depth generalizing j with
  | zero =>
    apply reads_atom plain
    all_goals
      rintro _ rfl
      exact plain
  | succ depth ih =>
    cases j with
    | arr xs => exact reads_arr plain fun x mem => ih x (plain x mem)
    | obj ms => exact reads_obj plain fun m mem => ih m.2 (plain m mem)
    | _ => exact reads_atom plain nofun nofun

theorem parse?_indented (plain : Plain maxDepth j) : parse? j.indented = some j := by
  have front := reads_of_plain maxDepth j plain 0 (j.indented.toList.length + 1) j.indented.toList []
    nofun (Nat.le_succ _) (by
      have := skipSpace_indentedAt 0 plain []
      rwa [List.append_nil] at this ⊢)
  rw [parse?]
  simp only [front]
  rfl

end Values

end Tenure.Json
