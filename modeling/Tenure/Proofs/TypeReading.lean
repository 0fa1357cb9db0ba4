import Mathlib.Data.List.DropRight
import Mathlib.Data.List.Forall2
import Tenure.Ty.Syntax

/- The texts of types, with blanks allowed before every token, and how they are read. What can stand
   behind a type inside another one ends it; a mark behind it makes it optional. -/
namespace Tenure

namespace Text

structure Solid (s : List Char) : Prop where
  first : ∃ c rest, s = c :: rest ∧ isBlank c = false
  last : ∃ c front, s = front ++ [c] ∧ isBlank c = false

variable {s : List Char}

theorem trimChars_solid (solid : Solid s) : trimChars s = s := by
  obtain ⟨c, rest, first, headSolid⟩ := solid.first
  obtain ⟨d, front, last, lastSolid⟩ := solid.last
  have left : trimLeftChars s = s := by
    rw [trimLeftChars, first, List.dropWhile_cons_of_neg (by simp [headSolid])]
  rw [trimChars, left, trimRightChars, last, List.reverse_append, List.reverse_singleton,
    List.singleton_append, List.dropWhile_cons_of_neg (by simp [lastSolid]), List.reverse_cons,
    List.reverse_reverse]

theorem trimChars_blank (solid : Solid s) : trimChars (' ' :: s) = s := by
  have left : trimLeftChars (' ' :: s) = trimLeftChars s := List.dropWhile_cons_of_pos (by decide)
  rw [trimChars, left, ← trimChars, trimChars_solid solid]

theorem blank_of_trimChars (empty : trimChars s = []) : ∀ c ∈ s, isBlank c = true := by
  intro c mem
  rw [← List.takeWhile_append_dropWhile (p := isBlank) (l := s), List.mem_append] at mem
  rcases mem with front | back
  · exact List.mem_takeWhile_imp front
  · exact List.rdropWhile_eq_nil_iff.1 empty c back

theorem trimChars_ne_nil {c : Char} {rest : List Char} (visible : isBlank c = false) :
    trimChars (c :: rest) ≠ [] := by
  intro empty
  rw [blank_of_trimChars empty c List.mem_cons_self] at visible
  cases visible

theorem trimChars_tail {front tail : List Char} (text : trimChars s = front ++ tail)
    (blank : ∀ c ∈ tail, isBlank c = true) : tail = [] := by
  by_contra some
  have whole : trimChars s ≠ [] := by simp [text, some]
  have last : (trimChars s).getLast whole = tail.getLast some := by simp [text, some]
  have visible : ¬ isBlank ((trimChars s).getLast whole) = true := List.rdropWhile_last_not _ _ whole
  rw [last] at visible
  exact visible (blank _ (List.getLast_mem some))

def listed (ss : List (List Char)) : List Char := [',', ' '].intercalate ss

def trailing (ss : List (List Char)) : List Char := ss.flatMap fun s => ',' :: ' ' :: s

theorem listed_cons (s : List Char) (ss : List (List Char)) : listed (s :: ss) = s ++ trailing ss := by
  induction ss generalizing s with
  | nil => simp [listed, trailing]
  | cons t ss ih =>
    have rest : listed (s :: t :: ss) = s ++ ([',', ' '] ++ listed (t :: ss)) := by
      simp [listed, List.intercalate_cons_cons]
    rw [rest, ih]
    simp [trailing]

theorem length_le_listed {ss : List (List Char)} (mem : s ∈ ss) :
    s.length ≤ (listed ss).length := by
  have behind : ∀ ss : List (List Char), s ∈ ss → s.length ≤ (trailing ss).length := by
    intro ss mem
    obtain ⟨front, back, rfl⟩ := List.append_of_mem mem
    simp [trailing]
    omega
  cases ss with
  | nil => simp at mem
  | cons t ss =>
    rw [listed_cons, List.length_append]
    rcases List.mem_cons.1 mem with rfl | mem
    · omega
    · have tail := behind ss mem
      omega

end Text

namespace Ty

open Text (Solid listed trailing listed_cons)

theorem visible_of_isNameChar {c : Char} (name : isNameChar c = true) : Text.isBlank c = false := by
  simp only [isNameChar, Bool.or_eq_true, Bool.and_eq_true, decide_eq_true_eq, beq_iff_eq, Char.le_def,
    UInt32.le_iff_toNat_le] at name
  have code : 48 ≤ c.toNat ∧ c.toNat ≤ 122 := by
    rcases name with ((rfl | ⟨low, high⟩) | ⟨low, high⟩) | ⟨low, high⟩
    · decide
    all_goals exact ⟨Nat.le_trans (by decide) low, Nat.le_trans high (by decide)⟩
  have space : (c == ' ') = false := by
    rw [beq_eq_false_iff_ne]
    rintro rfl
    exact absurd code.1 (by decide)
  have control : ¬ c ≤ '\r' := fun le =>
    absurd (Nat.le_trans code.1 (UInt32.le_iff_toNat_le.1 le)) (by decide)
  rw [Text.isBlank, if_pos (by omega)]
  simp [space, control]

def spaced (n : Nat) (token : List Char) : List Char := List.replicate n ' ' ++ token

mutual
/-- The texts of a type. One that ends in a result takes no marks: they belong to the result. -/
inductive Written : List Char → Ty → Prop
  | marked {s : List Char} {t : Ty} (type : Marked s t) : Written s t
  | function {p r : List Char} {ts : List Ty} {t : Ty} (n m : Nat) (params : Params true p ts)
      (result : Written r t) :
      Written (spaced n ['f', 'n', '('] ++ p ++ spaced m ['-', '>'] ++ r) (.func ts t)
/-- The texts of a type to which the marks behind it belong. -/
inductive Marked : List Char → Ty → Prop
  | name {word : List Char} (n : Nat) (some : word ≠ []) (all : ∀ c ∈ word, isNameChar c = true) :
      Marked (spaced n word) (ofName (String.ofList word))
  | array {s : List Char} {t : Ty} (n m : Nat) (elem : Written s t) :
      Marked (spaced n ['['] ++ s ++ spaced m [']']) (.array t)
  | procedure {p : List Char} {ts : List Ty} (n : Nat) (params : Params true p ts) :
      Marked (spaced n ['f', 'n', '('] ++ p) (.func ts .unit)
  | optional {s : List Char} {t : Ty} (n : Nat) (elem : Marked s t) :
      Marked (s ++ spaced n ['?']) (.optional t)
/-- The texts of parameters with the parenthesis that closes them, from the first one on or from behind
some of them. -/
inductive Params : Bool → List Char → List Ty → Prop
  | none (first : Bool) (n : Nat) : Params first (spaced n [')']) []
  | first {s p : List Char} {t : Ty} {ts : List Ty} (param : Written s t) (others : Params false p ts) :
      Params true (s ++ p) (t :: ts)
  | next {s p : List Char} {t : Ty} {ts : List Ty} (n : Nat) (param : Written s t)
      (others : Params false p ts) : Params false (spaced n [','] ++ s ++ p) (t :: ts)
end

variable {s u p rest token : List Char} {t : Ty} {ts : List Ty} {c d : Char} {fuel : Nat} {first : Bool}

/-! ### Blanks -/

theorem spaced_spaced (n m : Nat) (s : List Char) : spaced n (spaced m s) = spaced (n + m) s := by
  rw [spaced, spaced, spaced, ← List.append_assoc, List.replicate_append_replicate]

theorem skipBlanks_spaced (n : Nat) (s rest : List Char) :
    skipBlanks (spaced n s ++ rest) = skipBlanks (s ++ rest) := by
  induction n with
  | zero => rfl
  | succ n ih => exact ih

theorem skipBlanks_cons (visible : c ≠ ' ') (rest : List Char) : skipBlanks (c :: rest) = c :: rest :=
  List.dropWhile_cons_of_neg (by simp [visible])

theorem skipBlanks_append (starts : skipBlanks s = c :: rest) (more : List Char) :
    skipBlanks (s ++ more) = c :: (rest ++ more) := by
  rw [skipBlanks] at starts
  rw [skipBlanks, List.dropWhile_append, starts]
  rfl

theorem skipBlanks_skipBlanks (s : List Char) : skipBlanks (skipBlanks s) = skipBlanks s :=
  List.dropWhile_idempotent _ s

theorem eq_spaced (s : List Char) : ∃ n, s = spaced n (skipBlanks s) := by
  have blanks : s.takeWhile (· == ' ') = List.replicate (s.takeWhile (· == ' ')).length ' ' := by
    rw [List.eq_replicate_iff]
    exact ⟨rfl, fun c mem => by simpa using List.mem_takeWhile_imp mem⟩
  refine ⟨(s.takeWhile (· == ' ')).length, ?_⟩
  rw [spaced, ← blanks]
  exact List.takeWhile_append_dropWhile.symm

theorem accept_skipBlanks (same : skipBlanks s = skipBlanks u) (token : List Char) :
    accept token s = accept token u := by
  rw [accept, accept, same]

theorem read_skipBlanks (same : skipBlanks s = skipBlanks u) (fuel : Nat) : read fuel s = read fuel u := by
  cases fuel with
  | zero => rfl
  | succ fuel =>
    rw [read, read]
    simp only [accept_skipBlanks same, same]

theorem readParams_skipBlanks (same : skipBlanks s = skipBlanks u) :
    readParams fuel first s = readParams fuel first u := by
  cases fuel with
  | zero => rfl
  | succ fuel =>
    rw [readParams, readParams]
    cases first <;> simp [accept_skipBlanks same, read_skipBlanks same]

theorem marks_skipBlanks (t : Ty) (s : List Char) : marks t s = marks t (skipBlanks s) := by
  induction s with
  | nil => rfl
  | cons c s ih =>
    by_cases blank : c = ' '
    · subst blank
      exact ih
    · rw [skipBlanks_cons blank]

theorem accept_eq_some_iff (visible : c ≠ ' ') :
    accept (c :: token) s = some rest ↔ ∃ n, s = spaced n (c :: token) ++ rest := by
  constructor
  · intro found
    obtain ⟨here, rfl⟩ : (c :: token).isPrefixOf (skipBlanks s) = true ∧
        (skipBlanks s).drop (c :: token).length = rest := by
      simpa [accept] using found
    obtain ⟨rest, shape⟩ := List.isPrefixOf_iff_prefix.1 here
    obtain ⟨n, text⟩ := eq_spaced s
    rw [← shape, List.drop_left]
    rw [← shape] at text
    exact ⟨n, by rw [text, spaced, spaced, List.append_assoc]⟩
  · rintro ⟨n, rfl⟩
    rw [accept, skipBlanks_spaced, List.cons_append, skipBlanks_cons visible]
    simp

theorem accept_spaced (visible : c ≠ ' ') (n : Nat) (token rest : List Char) :
    accept (c :: token) (spaced n (c :: token) ++ rest) = some rest :=
  (accept_eq_some_iff visible).2 ⟨n, rfl⟩

theorem accept_other (starts : skipBlanks s = c :: rest) (other : d ≠ c) (token : List Char) :
    accept (d :: token) s = none := by
  rw [accept, starts]
  simp [List.isPrefixOf, other]

theorem Marked.blank {s : List Char} {t : Ty} (type : Marked s t) : Marked (' ' :: s) t := by
  cases type with
  | name n some all => exact .name (n + 1) some all
  | array n m elem => exact .array (n + 1) m elem
  | procedure n params => exact .procedure (n + 1) params
  | optional n elem => exact .optional n elem.blank

theorem Written.blank (type : Written s t) : Written (' ' :: s) t := by
  cases type with
  | marked type => exact .marked type.blank
  | function n m params result => exact .function (n + 1) m params result

/-! ### Texts are read -/

/-- What follows the blanks, if anything, does not belong to the type in front of them. -/
def Stops (s : List Char) : Prop := ∀ c ∈ (skipBlanks s).head?, c ∈ [',', ')', ']']

def Ends (s : List Char) : Prop := ∀ c ∈ (skipBlanks s).head?, c ∈ ['?', ',', ')', ']']

theorem Stops.ends (stops : Stops s) : Ends s := fun c mem => List.mem_cons_of_mem _ (stops c mem)

theorem head?_spaced (visible : c ≠ ' ') (n : Nat) (rest : List Char) :
    (skipBlanks (spaced n [c] ++ rest)).head? = some c := by
  rw [skipBlanks_spaced, List.singleton_append, skipBlanks_cons visible]
  rfl

theorem stops_spaced (closing : c ∈ [',', ')', ']']) (visible : c ≠ ' ') (n : Nat) (rest : List Char) :
    Stops (spaced n [c] ++ rest) := by
  intro d mem
  rw [head?_spaced visible] at mem
  cases mem
  exact closing

theorem marks_stops (t : Ty) (stops : Stops s) : marks t s = (t, skipBlanks s) := by
  rw [marks_skipBlanks]
  cases shape : skipBlanks s with
  | nil => rfl
  | cons c rest =>
    have closing := stops c (by rw [shape]; rfl)
    simp only [List.mem_cons, List.not_mem_nil, or_false] at closing
    rcases closing with rfl | rfl | rfl <;> rfl

theorem accept_arrow (ends : Ends s) : accept ['-', '>'] s = none := by
  cases shape : skipBlanks s with
  | nil => simp [accept, shape]
  | cons c rest =>
    apply accept_other shape
    rintro rfl
    exact absurd (ends '-' (by rw [shape]; rfl)) (by decide)

def Opens (s : List Char) : Prop := ∃ c rest, skipBlanks s = c :: rest ∧ (isNameChar c = true ∨ c = '[')

theorem visible_of_opens (opens : isNameChar c = true ∨ c = '[') : c ≠ ' ' := by
  rintro rfl
  rcases opens with opens | opens <;> exact absurd opens (by decide)

theorem opens_spaced (opens : isNameChar c = true ∨ c = '[') (n : Nat) (token rest : List Char) :
    Opens (spaced n (c :: token) ++ rest) := by
  refine ⟨c, token ++ rest, ?_, opens⟩
  rw [skipBlanks_spaced, List.cons_append, skipBlanks_cons (visible_of_opens opens)]

theorem Marked.opens {s : List Char} {t : Ty} (type : Marked s t) : Opens s := by
  cases type with
  | @name word n some all =>
    obtain ⟨c, tail, rfl⟩ := List.exists_cons_of_ne_nil some
    have opens := opens_spaced (.inl (all c List.mem_cons_self)) n tail []
    rwa [List.append_nil] at opens
  | array n m elem =>
    rw [List.append_assoc]
    exact opens_spaced (.inr rfl) n _ _
  | procedure n params => exact opens_spaced (.inl (by decide)) n _ _
  | optional n elem =>
    obtain ⟨c, rest, starts, opens⟩ := elem.opens
    exact ⟨c, _, skipBlanks_append starts _, opens⟩

theorem Written.opens (type : Written s t) : Opens s := by
  cases type with
  | marked type => exact type.opens
  | function n m params result =>
    rw [List.append_assoc, List.append_assoc]
    exact opens_spaced (.inl (by decide)) n _ _

theorem Written.length_pos (type : Written s t) : 0 < s.length := by
  obtain ⟨c, rest, starts, -⟩ := type.opens
  apply List.length_pos_of_ne_nil
  rintro rfl
  cases starts

theorem Params.stops (others : Params false p ts) (rest : List Char) : Stops (p ++ rest) := by
  cases others with
  | none _ n => exact stops_spaced (by decide) (by decide) n rest
  | next n param others =>
    rw [List.append_assoc, List.append_assoc]
    exact stops_spaced (by decide) (by decide) n _

theorem read_name (some : s ≠ []) (all : ∀ c ∈ s, isNameChar c = true) (ends : Ends rest) (fuel : Nat) :
    read (fuel + 1) (s ++ rest) = .ok (marks (ofName (String.ofList s)) rest) := by
  have outside : ∀ d ∈ rest.head?, isNameChar d = false ∧ d ≠ '(' := by
    intro d mem
    by_cases blank : d = ' '
    · rw [blank]
      decide
    · obtain ⟨more, rfl⟩ := List.head?_eq_some_iff.1 mem
      have closing := ends d (by rw [skipBlanks_cons blank]; rfl)
      simp only [List.mem_cons, List.not_mem_nil, or_false] at closing
      rcases closing with rfl | rfl | rfl | rfl <;> decide
  have nothing : rest.takeWhile isNameChar = [] ∧ rest.dropWhile isNameChar = rest := by
    cases rest with
    | nil => simp
    | cons d rest => simp [(outside d rfl).1]
  have whole : (s ++ rest).takeWhile isNameChar = s := by
    rw [List.takeWhile_append_of_pos all, nothing.1, List.append_nil]
  have left : (s ++ rest).dropWhile isNameChar = rest := by
    rw [List.dropWhile_append_of_pos all, nothing.2]
  obtain ⟨c, tail, rfl⟩ := List.exists_cons_of_ne_nil some
  have first : isNameChar c = true := all c List.mem_cons_self
  have skip : skipBlanks (c :: tail ++ rest) = c :: tail ++ rest :=
    skipBlanks_cons (visible_of_opens (.inl first)) _
  have bracket : accept ['['] (c :: tail ++ rest) = none := by
    apply accept_other skip
    rintro rfl
    exact absurd first (by decide)
  have head : accept ['f', 'n', '('] (c :: tail ++ rest) = none := by
    rw [accept, skip, if_neg]
    intro here
    obtain ⟨more, shape⟩ := List.isPrefixOf_iff_prefix.1 here
    rw [← shape] at left
    have paren : rest = '(' :: more := left.symm
    exact (outside '(' (by rw [paren]; rfl)).2 rfl
  rw [read, bracket, head]
  simp only [skip, whole, left, List.isEmpty_cons, Bool.false_eq_true, if_false]
  rfl

theorem readParams_going (going : accept [')'] s = none) : readParams (fuel + 1) first s =
    (if first then pure s else (accept [','] s).elim (throw .expectedComma) pure) >>= fun u =>
      read fuel u >>= fun x => readParams fuel false x.2 >>= fun y => pure (x.1 :: y.1, y.2) := by
  rw [readParams, going]
  cases first with
  | true => rfl
  | false => cases accept [','] s <;> rfl

mutual
theorem Written.read {s rest : List Char} {t : Ty} {fuel : Nat} (type : Written s t)
    (enough : s.length < fuel) (stops : Stops rest) :
    Ty.read fuel (s ++ rest) = .ok (t, skipBlanks rest) := by
  cases type with
  | marked type => rw [type.read enough stops.ends, marks_stops t stops]
  | @function p r ts t n m params result =>
    obtain ⟨fuel, rfl⟩ := Nat.exists_eq_succ_of_ne_zero (Nat.ne_zero_of_lt enough)
    simp only [List.length_append, spaced, List.length_cons] at enough
    simp only [List.append_assoc]
    rw [Ty.read, accept_other (skipBlanks_spaced n _ _) (by decide), accept_spaced (by decide)]
    simp only [bind, Except.bind, params.read (show p.length + 1 < fuel by omega),
      accept_spaced (show '-' ≠ ' ' by decide), result.read (show r.length < fuel by omega) stops]
    rw [← marks_skipBlanks, marks_stops _ stops]
    rfl
termination_by (fuel, s.length, 1)
theorem Marked.read {s rest : List Char} {t : Ty} {fuel : Nat} (type : Marked s t)
    (enough : s.length < fuel) (ends : Ends rest) :
    Ty.read fuel (s ++ rest) = .ok (marks t rest) := by
  cases type with
  | name n some all =>
    obtain ⟨fuel, rfl⟩ := Nat.exists_eq_succ_of_ne_zero (Nat.ne_zero_of_lt enough)
    rw [read_skipBlanks (skipBlanks_spaced n _ rest), read_name some all ends]
  | @array s t n m elem =>
    obtain ⟨fuel, rfl⟩ := Nat.exists_eq_succ_of_ne_zero (Nat.ne_zero_of_lt enough)
    simp only [List.length_append, spaced, List.length_cons] at enough
    have stops : Stops (spaced m [']'] ++ rest) := stops_spaced (by decide) (by decide) m rest
    have close : accept [']'] (skipBlanks (spaced m [']'] ++ rest)) = some rest := by
      rw [accept_skipBlanks (skipBlanks_skipBlanks _), accept_spaced (by decide)]
    simp only [List.append_assoc]
    rw [Ty.read, accept_spaced (by decide)]
    simp only [bind, Except.bind, close, elem.read (show s.length < fuel by omega) stops]
    rfl
  | @procedure p ts n params =>
    obtain ⟨fuel, rfl⟩ := Nat.exists_eq_succ_of_ne_zero (Nat.ne_zero_of_lt enough)
    simp only [List.length_append, spaced, List.length_cons] at enough
    rw [List.append_assoc, Ty.read, accept_other (skipBlanks_spaced n _ _) (by decide),
      accept_spaced (by decide)]
    simp only [bind, Except.bind, params.read (show p.length + 1 < fuel by omega), accept_arrow ends]
    rfl
  | @optional s t n elem =>
    have shorter : s.length < (s ++ spaced n ['?']).length := by simp [spaced]
    have mark : Ends (spaced n ['?'] ++ rest) := by
      intro c mem
      rw [head?_spaced (by decide)] at mem
      cases mem
      exact List.mem_cons_self
    rw [List.append_assoc, elem.read (Nat.lt_trans shorter enough) mark, marks_skipBlanks,
      skipBlanks_spaced]
    rfl
termination_by (fuel, s.length, 0)
theorem Params.read {p rest : List Char} {first : Bool} {ts : List Ty} {fuel : Nat}
    (params : Params first p ts) (enough : p.length + 1 < fuel) :
    readParams fuel first (p ++ rest) = .ok (ts, rest) := by
  obtain ⟨fuel, rfl⟩ := Nat.exists_eq_succ_of_ne_zero (Nat.ne_zero_of_lt enough)
  cases params with
  | none first n =>
    rw [readParams, accept_spaced (by decide)]
    rfl
  | @first s p t ts param others =>
    have some := param.length_pos
    obtain ⟨c, tail, starts, opens⟩ := param.opens
    have going : accept [')'] (s ++ (p ++ rest)) = none := by
      apply accept_other (skipBlanks_append starts _)
      rintro rfl
      rcases opens with opens | opens <;> exact absurd opens (by decide)
    rw [List.length_append] at enough
    rw [List.append_assoc, readParams_going going, if_pos rfl, pure_bind,
      param.read (by omega) (others.stops rest)]
    simp only [bind, Except.bind, readParams_skipBlanks (skipBlanks_skipBlanks _),
      others.read (show p.length + 1 < fuel by omega)]
    rfl
  | @next s p t ts n param others =>
    have going : accept [')'] (spaced n [','] ++ (s ++ (p ++ rest))) = none :=
      accept_other (skipBlanks_spaced n _ _) (by decide) _
    simp only [List.length_append, spaced, List.length_cons] at enough
    rw [List.append_assoc, List.append_assoc, readParams_going going, if_neg (by decide),
      accept_spaced (by decide), Option.elim_some, pure_bind,
      param.read (by omega) (others.stops rest)]
    simp only [bind, Except.bind, readParams_skipBlanks (skipBlanks_skipBlanks _),
      others.read (show p.length + 1 < fuel by omega)]
    rfl
termination_by (fuel, p.length, 0)
end

theorem Written.parse {s : String} (type : Written (Text.trimChars s.toList) t) : Ty.parse s = .ok t := by
  have whole := type.read (Nat.lt_succ_self _) (show Stops [] from fun c mem => by cases mem)
  rw [List.append_nil] at whole
  unfold Ty.parse
  simp only [whole, bind, Except.bind]
  rfl

theorem Params.trailing {ss : List (List Char)} {ts : List Ty} (written : List.Forall₂ Written ss ts) :
    Params false (trailing ss ++ [')']) ts := by
  induction written with
  | nil => exact .none false 0
  | @cons s t ss ts first others ih =>
    have text : Text.trailing (s :: ss) ++ [')'] =
        spaced 0 [','] ++ (' ' :: s) ++ (Text.trailing ss ++ [')']) := by simp [Text.trailing, spaced]
    rw [text]
    exact .next 0 first.blank ih

theorem Params.listed {ss : List (List Char)} {ts : List Ty} (written : List.Forall₂ Written ss ts) :
    Params true (listed ss ++ [')']) ts := by
  cases written with
  | nil => exact .none true 0
  | cons first others =>
    rw [listed_cons, List.append_assoc]
    exact .first first (.trailing others)

end Ty

end Tenure
