import Tenure.Text.Blank

/- Measured values in decimal notation. A quotient is first rounded to 53 binary digits, as it is
   stored, and then to a fixed number of places. -/
namespace Tenure.Text

def int64Bound : Nat := 9223372036854775808

def roundDiv (num den : Nat) : Nat :=
  let q := num / den
  let rest := 2 * (num % den)
  if rest < den then q else if den < rest then q + 1 else q + q % 2

/-- A quotient as `m * 2 ^ up / 2 ^ down` with `m` of 53 binary digits. -/
structure Binary where
  m : Nat
  up : Nat
  down : Nat
  deriving DecidableEq, Repr

def storedQuotient (num den : Nat) : Binary :=
  if num = 0 then ⟨0, 0, 0⟩
  else
    let size := (num / den).log2 + 1
    -- The quotient has `size` digits before the point, or its first digit is behind it.
    let down := if num < den then 53 + (den / num).log2 + 1 else 53 - size
    let up := size - 53
    let m := roundDiv (num * Nat.pow 2 down) (den * Nat.pow 2 up)
    let extra := m.log2 + 1 - 53
    if num < den ∧ 0 < extra then ⟨roundDiv (num * Nat.pow 2 (down - extra)) den, 0, down - extra⟩
    else ⟨m, up, down⟩

def storedWhole (n : Nat) : Nat :=
  let b := storedQuotient n 1
  b.m * Nat.pow 2 b.up / Nat.pow 2 b.down

def zeroPadded (digits n : Nat) : String :=
  let s := toString n
  String.ofList (List.replicate (digits - s.length) '0') ++ s

def fixedQuotient (places num den : Nat) : String :=
  let b := storedQuotient num den
  let scaled := roundDiv (b.m * Nat.pow 2 b.up * Nat.pow 10 places) (Nat.pow 2 b.down)
  let whole := toString (scaled / Nat.pow 10 places)
  if places = 0 then whole else whole ++ "." ++ zeroPadded places (scaled % Nat.pow 10 places)

def fixedSigned (places : Nat) (num : Int) (den : Nat) : String :=
  let s := fixedQuotient places num.natAbs den
  if num < 0 then "-" ++ s else s

end Tenure.Text
