import Tenure.Proofs.Association
import Tenure.Proofs.TypeReading

/- The reader of types accepts the texts of types and nothing else. What it leaves behind a type is
   settled: no mark could be taken from it. Fuel beyond the length of the text makes no difference. -/
namespace Tenure.Ty

variable {s rest token : List Char} {t : Ty} {c : Char} {fuel : Nat}

theorem accept_of_cut {token s rest : List Char} {e : SyntaxError}
    (cut : (accept token s).elim (.error e) .ok = Except.ok rest) : accept token s = some rest := by
  cases comma : accept token s with
  | none =>
    rw [comma] at cut
    cases cut
  | some x =>
    rw [comma] at cut
    cases cut
    rfl

def Settled (s : List Char) : Prop := ∀ t, marks t s = (t, s)

theorem Marked.marks {u : Ty} {front : List Char} {n : Nat} (type : Marked front t)
    (taken : Ty.marks t s = (u, rest)) :
    ∃ more m, spaced n s = more ++ spaced m rest ∧ Marked (front ++ more) u ∧ Settled rest := by
  fun_induction Ty.marks t s generalizing front n with
  | case1 t s ih =>
    have blank : spaced n (' ' :: s) = spaced (n + 1) s := (spaced_spaced n 1 s)
    rw [blank]
    exact ih type taken
  | case2 t s ih =>
    obtain ⟨more, m, text, all, settled⟩ := ih (n := 0) (type.optional n) taken
    refine ⟨spaced n ['?'] ++ more, m, ?_, by rwa [← List.append_assoc], settled⟩
    have mark : spaced n ('?' :: s) = spaced n ['?'] ++ spaced 0 s := by simp [spaced]
    rw [mark, text, List.append_assoc]
  | case3 t s blank mark =>
    cases taken
    refine ⟨[], n, rfl, by rwa [List.append_nil], fun u => ?_⟩
    rw [Ty.marks.eq_def]
    split
    · exact absurd rfl (blank _)
    · exact absurd rfl (mark _)
    · rfl

theorem Marked.written {u : Ty} {front : List Char} (type : Marked front t)
    (taken : Ty.marks t s = (u, rest)) :
    ∃ whole n, front ++ s = whole ++ spaced n rest ∧ Written whole u ∧ Settled rest := by
  obtain ⟨more, n, text, all, settled⟩ := type.marks (n := 0) taken
  refine ⟨front ++ more, n, ?_, .marked all, settled⟩
  rw [List.append_assoc, ← text]
  rfl

theorem read_written (fuel : Nat) :
    (∀ {s rest : List Char} {t : Ty}, read fuel s = .ok (t, rest) →
      ∃ front n, s = front ++ spaced n rest ∧ Written front t ∧ Settled rest) ∧
    ∀ {first : Bool} {s rest : List Char} {ts : List Ty}, readParams fuel first s = .ok (ts, rest) →
      ∃ p, s = p ++ rest ∧ Params first p ts := by
  induction fuel with
  | zero =>
    constructor
    · intro s rest t done
      rw [read] at done
      cases done
    · intro first s rest ts done
      rw [readParams] at done
      cases done
  | succ fuel ih =>
    obtain ⟨types, lists⟩ := ih
    constructor
    · intro s rest t done
      rw [read] at done
      cases bracket : accept ['['] s with
      | some u =>
        rw [bracket] at done
        obtain ⟨n, rfl⟩ := (accept_eq_some_iff (by decide)).1 bracket
        obtain ⟨⟨elem, v⟩, inner, ended⟩ := ok_of_bind done
        obtain ⟨front, k, rfl, type, -⟩ := types inner
        dsimp only at ended
        cases close : accept [']'] v with
        | none =>
          rw [close] at ended
          cases ended
        | some w =>
          rw [close] at ended
          obtain ⟨m, rfl⟩ := (accept_eq_some_iff (by decide)).1 close
          obtain ⟨whole, i, text, written, settled⟩ :=
            (Marked.array n (k + m) type).written (Except.ok.inj ended)
          refine ⟨whole, i, ?_, written, settled⟩
          rw [← text, ← spaced_spaced]
          simp [spaced]
      | none =>
        rw [bracket] at done
        cases head : accept ['f', 'n', '('] s with
        | some u =>
          rw [head] at done
          obtain ⟨n, rfl⟩ := (accept_eq_some_iff (by decide)).1 head
          obtain ⟨⟨ts, v⟩, inner, ended⟩ := ok_of_bind done
          obtain ⟨p, rfl, params⟩ := lists inner
          dsimp only at ended
          cases arrow : accept ['-', '>'] v with
          | none =>
            rw [arrow] at ended
            obtain ⟨whole, i, text, written, settled⟩ :=
              (Marked.procedure n params).written (Except.ok.inj ended)
            exact ⟨whole, i, by rw [← text, List.append_assoc], written, settled⟩
          | some w =>
            rw [arrow] at ended
            obtain ⟨m, rfl⟩ := (accept_eq_some_iff (by decide)).1 arrow
            obtain ⟨⟨result, x⟩, inner, last⟩ := ok_of_bind ended
            obtain ⟨r, k, rfl, type, settled⟩ := types inner
            -- the marks behind the result have gone to it
            cases (settled _).symm.trans (Except.ok.inj last)
            exact ⟨_, k, by simp, .function n m params type, settled⟩
        | none =>
          rw [head] at done
          dsimp only at done
          split at done
          · cases done
          · rename_i some
            obtain ⟨n, text⟩ := eq_spaced s
            have name := Marked.name n (by simpa using some) fun c mem => List.mem_takeWhile_imp mem
            obtain ⟨whole, i, cut, written, settled⟩ := name.written (Except.ok.inj done)
            refine ⟨whole, i, ?_, written, settled⟩
            rw [← cut, spaced, List.append_assoc, List.takeWhile_append_dropWhile]
            exact text
    · intro first s rest ts done
      cases close : accept [')'] s with
      | some u =>
        rw [readParams, close] at done
        obtain ⟨n, rfl⟩ := (accept_eq_some_iff (by decide)).1 close
        cases done
        exact ⟨_, rfl, .none first n⟩
      | none =>
        rw [readParams_going close] at done
        obtain ⟨u, cut, more⟩ := ok_of_bind done
        obtain ⟨⟨t, v⟩, one, more⟩ := ok_of_bind more
        obtain ⟨⟨us, w⟩, others, ended⟩ := ok_of_bind more
        obtain ⟨front, k, rfl, type, -⟩ := types one
        have blanks := skipBlanks_spaced k v []
        rw [List.append_nil, List.append_nil] at blanks
        rw [← readParams_skipBlanks blanks] at others
        obtain ⟨p, text, params⟩ := lists others
        rw [text] at cut
        cases ended
        cases first with
        | true =>
          cases cut
          exact ⟨front ++ p, by rw [List.append_assoc], .first type params⟩
        | false =>
          obtain ⟨n, rfl⟩ := (accept_eq_some_iff (by decide)).1 (accept_of_cut cut)
          exact ⟨spaced n [','] ++ front ++ p, by simp, .next n type params⟩

/-! ### Fuel -/

theorem length_accept (visible : c ≠ ' ') (found : accept (c :: token) s = some rest) :
    rest.length + token.length < s.length := by
  obtain ⟨n, rfl⟩ := (accept_eq_some_iff visible).1 found
  simp only [spaced, List.length_append, List.length_cons]
  omega

theorem length_read (done : read fuel s = .ok (t, rest)) : rest.length < s.length := by
  obtain ⟨front, n, rfl, type, -⟩ := (read_written fuel).1 done
  have some := type.length_pos
  simp only [spaced, List.length_append]
  omega

/-- One result, and not one for want of fuel. -/
def Agree {α : Type} (x y : Except SyntaxError α) : Prop := x = y ∧ y ≠ .error .unended

section Agree

variable {α β : Type}

theorem agree_ok (a : α) : Agree (.ok a) (.ok a) := ⟨rfl, by simp⟩

theorem agree_error {e : SyntaxError} (other : e ≠ .unended) :
    Agree (.error e : Except SyntaxError α) (.error e) := ⟨rfl, by simpa using other⟩

theorem Agree.bind {x y : Except SyntaxError α} {f g : α → Except SyntaxError β} (same : Agree x y)
    (each : ∀ a, y = .ok a → Agree (f a) (g a)) : Agree (x >>= f) (y >>= g) := by
  obtain ⟨rfl, ended⟩ := same
  cases x with
  | error e => exact agree_error fun unended => ended (congrArg _ unended)
  | ok a => exact each a rfl

end Agree

theorem read_stable (fuel : Nat) :
    (∀ s : List Char, s.length < fuel → Agree (read (fuel + 1) s) (read fuel s)) ∧
    ∀ (first : Bool) (s : List Char), s.length + 1 < fuel →
      Agree (readParams (fuel + 1) first s) (readParams fuel first s) := by
  induction fuel with
  | zero => exact ⟨fun s enough => by omega, fun first s enough => by omega⟩
  | succ fuel ih =>
    obtain ⟨types, lists⟩ := ih
    constructor
    · intro s enough
      rw [read, read.eq_2 s fuel]
      cases bracket : accept ['['] s with
      | some u =>
        have shorter := length_accept (by decide) bracket
        refine (types u (by omega)).bind fun ⟨elem, v⟩ _ => ?_
        dsimp only
        cases accept [']'] v with
        | none => exact agree_error (by decide)
        | some w => exact agree_ok _
      | none =>
        cases head : accept ['f', 'n', '('] s with
        | none =>
          dsimp only
          split
          · exact agree_error (by decide)
          · exact agree_ok _
        | some u =>
          have shorter := length_accept (by decide) head
          simp only [List.length_cons, List.length_nil] at shorter
          refine (lists true u (by omega)).bind fun ⟨ts, v⟩ inner => ?_
          obtain ⟨p, rfl, -⟩ := (read_written fuel).2 inner
          rw [List.length_append] at shorter
          dsimp only
          cases arrow : accept ['-', '>'] v with
          | none => exact agree_ok _
          | some w =>
            have rest := length_accept (by decide) arrow
            exact (types w (by omega)).bind fun _ _ => agree_ok _
    · intro first s enough
      cases close : accept [')'] s with
      | some u =>
        rw [readParams, readParams.eq_2 first s fuel, close]
        exact agree_ok _
      | none =>
        rw [readParams_going close, readParams_going close]
        have comma : Agree (if first then .ok s else (accept [','] s).elim (.error .expectedComma) .ok)
            (if first then .ok s else (accept [','] s).elim (.error .expectedComma) .ok) := by
          cases first with
          | true => exact agree_ok s
          | false =>
            cases accept [','] s with
            | none => exact agree_error (by decide)
            | some u => exact agree_ok u
        refine comma.bind fun u cut => ?_
        have shorter : u.length ≤ s.length := by
          cases first with
          | true =>
            cases cut
            exact Nat.le_refl _
          | false =>
            have := length_accept (by decide) (accept_of_cut cut)
            omega
        refine (types u (by omega)).bind fun x one => ?_
        have left := length_read one
        exact (lists false x.2 (by omega)).bind fun _ _ => agree_ok _

theorem read_steady {source : List Char} {fuel : Nat} (enough : source.length < fuel) :
    read fuel source = read (source.length + 1) source := by
  induction fuel, enough using Nat.le_induction with
  | base => rfl
  | succ fuel enough ih => rw [((read_stable fuel).1 source enough).1, ih]

theorem parse_ends (s : String) : parse s ≠ .error .unended := by
  have whole := (read_stable _).1 (Text.trimChars s.toList) (Nat.lt_succ_self _)
  have same : Agree (parse s) (parse s) := by
    unfold parse
    refine Agree.bind ⟨rfl, whole.2⟩ fun ⟨t, rest⟩ _ => ?_
    dsimp only
    split
    · exact agree_ok t
    · exact agree_error (by simp)
  exact same.2

/-! ### Blank characters around a type -/

def Closes (s : List Char) : Prop := ∃ c, s.getLast? = some c ∧ Text.isBlank c = false

theorem Closes.behind {s : List Char} (closes : Closes s) (front : List Char) : Closes (front ++ s) := by
  obtain ⟨c, last, visible⟩ := closes
  exact ⟨c, by rw [List.getLast?_append, last, Option.some_or], visible⟩

theorem closes_spaced {c : Char} (visible : Text.isBlank c = false) (n : Nat) : Closes (spaced n [c]) :=
  Closes.behind ⟨c, rfl, visible⟩ _

mutual
theorem Written.closes {s : List Char} {t : Ty} (type : Written s t) : Closes s := by
  cases type with
  | marked type => exact type.closes
  | function n m params result => exact result.closes.behind _
theorem Marked.closes {s : List Char} {t : Ty} (type : Marked s t) : Closes s := by
  cases type with
  | @name word n some all =>
    have visible := visible_of_isNameChar (all _ (List.getLast_mem some))
    exact Closes.behind ⟨_, List.getLast?_eq_some_getLast some, visible⟩ _
  | array n m elem => exact (closes_spaced (by decide) m).behind _
  | procedure n params => exact params.closes.behind _
  | optional n elem => exact (closes_spaced (by decide) n).behind _
theorem Params.closes {first : Bool} {p : List Char} {ts : List Ty} (params : Params first p ts) :
    Closes p := by
  cases params with
  | none first n => exact closes_spaced (by decide) n
  | first param others => exact others.closes.behind _
  | next n param others => exact others.closes.behind _
end

theorem trimChars_spaced (n : Nat) (s : List Char) :
    Text.trimChars (spaced n s) = Text.trimChars s := by
  induction n with
  | zero => rfl
  | succ n ih => exact ih

theorem Written.trimChars {s : List Char} {t : Ty} (type : Written s t) :
    Text.trimChars s = skipBlanks s := by
  obtain ⟨n, text⟩ := eq_spaced s
  obtain ⟨c, rest, starts, opens⟩ := type.opens
  have solid : Text.Solid (skipBlanks s) := by
    obtain ⟨d, last, visible⟩ := type.closes
    rw [text, starts, spaced, List.getLast?_append_of_ne_nil _ (List.cons_ne_nil c rest)] at last
    obtain ⟨front, shape⟩ := List.getLast?_eq_some_iff.1 last
    constructor
    · refine ⟨c, rest, starts, ?_⟩
      rcases opens with name | rfl
      · exact visible_of_isNameChar name
      · decide
    · exact ⟨d, front, starts.trans shape, visible⟩
  calc Text.trimChars s
    _ = Text.trimChars (spaced n (skipBlanks s)) := congrArg _ text
    _ = skipBlanks s := by rw [trimChars_spaced, Text.trimChars_solid solid]

theorem Written.parse_toList {s : String} {t : Ty} (type : Written s.toList t) : Ty.parse s = .ok t := by
  have whole := type.read (Nat.lt_succ_self _) (show Stops [] from fun c mem => by cases mem)
  have shorter : (skipBlanks s.toList).length < s.toList.length + 1 :=
    Nat.lt_succ_of_le (List.length_dropWhile_le _ _)
  rw [List.append_nil, ← read_skipBlanks (skipBlanks_skipBlanks _), read_steady shorter] at whole
  unfold Ty.parse
  simp only [type.trimChars, whole, bind, Except.bind]
  rfl

theorem written_of_parse {s : String} (parsed : parse s = .ok t) :
    Written (Text.trimChars s.toList) t := by
  obtain ⟨⟨u, rest⟩, done, ended⟩ := ok_of_bind parsed
  dsimp only at ended
  split at ended
  · rename_i empty
    cases ended
    obtain ⟨front, n, text, type, -⟩ := (read_written _).1 done
    have blank := Text.blank_of_trimChars (List.isEmpty_iff.1 empty)
    have nothing : spaced n rest = [] := by
      apply Text.trimChars_tail text
      intro c mem
      rcases List.mem_append.1 mem with space | left
      · rw [List.eq_of_mem_replicate space]
        decide
      · exact blank c left
    rw [text, nothing, List.append_nil]
    exact type
  · cases ended

/-- A text is read as a type exactly if it is one of its texts, up to blank characters around it; and
reading ends: it never stops for want of fuel, and from the length of the text on, more fuel makes no
difference. -/
theorem parse_accepts_grammar (s : String) :
    (∀ t, parse s = .ok t ↔ Written (Text.trimChars s.toList) t) ∧
      parse s ≠ .error .unended ∧
      ∀ fuel, (Text.trimChars s.toList).length < fuel →
        read fuel (Text.trimChars s.toList) =
          read ((Text.trimChars s.toList).length + 1) (Text.trimChars s.toList) :=
  ⟨fun _ => ⟨written_of_parse, Written.parse⟩, parse_ends s, fun _ => read_steady⟩

end Tenure.Ty
