/- Tables over code points. A table is written as text, one token for each row with numbers to the
   base 36. Rows are sorted and written by their distance from one another; look-up is by bisection. -/
namespace Tenure.Text

def digitValue (c : Char) : Nat :=
  if c.isDigit then c.toNat - '0'.toNat else c.toNat - 'A'.toNat + 10

def number (digits : List Char) : Nat := digits.foldl (fun n c => 36 * n + digitValue c) 0

def cutAt (mark : Char) : List Char → List (List Char)
  | [] => [[]]
  | c :: cs =>
    if c = mark then [] :: cutAt mark cs
    else match cutAt mark cs with
      | [] => [[c]]
      | piece :: pieces => (c :: piece) :: pieces

def rows (table : List String) : List (List Char) :=
  table.flatMap fun line => (cutAt ' ' line.toList).filter fun r => !r.isEmpty

/-- `GAP` or `GAP-MORE`: from `GAP` behind the last number of the row before, and `MORE` numbers on. -/
def rangeAfter (last : Nat) (key : List Char) : Nat × Nat :=
  match cutAt '-' key with
  | [gap, more] => (last + number gap, last + number gap + number more)
  | [gap] => (last + number gap, last + number gap)
  | _ => (last, last)

def rangesAfter (last : Nat) : List (List Char) → List (Nat × Nat)
  | [] => []
  | row :: rows =>
    let range := rangeAfter last row
    range :: rangesAfter range.2 rows

/-- Rows with a value each: `RANGE>VALUE`, or `VALUE` for the next number alone. -/
def rowsAfter (last : Nat) : List (List Char) → List ((Nat × Nat) × List Char)
  | [] => []
  | row :: rows =>
    let (range, value) := match cutAt '>' row with
      | [key, value] => (rangeAfter last key, value)
      | _ => ((last + 1, last + 1), row)
    (range, value) :: rowsAfter range.2 rows

def ranges (table : List String) : Array (Nat × Nat) := (rangesAfter 0 (rows table)).toArray

def valuedRanges (table : List String) : Array (Nat × Nat × Nat) :=
  ((rowsAfter 0 (rows table)).map fun ((lo, hi), value) => (lo, hi, number value)).toArray

/-- Every `step`-th number from `lo` to `hi` moves to the place as far from `target`. -/
structure Run where
  lo : Nat
  hi : Nat
  step : Nat
  target : Nat

def runs (table : List String) : Array Run :=
  ((rowsAfter 0 (rows table)).map fun ((lo, hi), aim) => match cutAt '/' aim with
    | [target, step] => ⟨lo, hi, number step, number target⟩
    | _ => ⟨lo, hi, 1, number aim⟩).toArray

/-- The values are `A+B+C`, where a part left out is that of the row before. -/
def expansionsAfter (before : List Nat) : List ((Nat × Nat) × List Char) → List (Nat × List Nat)
  | [] => []
  | ((one, _), many) :: rows =>
    let parts := (cutAt '+' many).mapIdx fun i part =>
      if part.isEmpty then before.getD i 0 else number part
    (one, parts) :: expansionsAfter parts rows

def expansions (table : List String) : Array (Nat × List Nat) :=
  (expansionsAfter [] (rowsAfter 0 (rows table))).toArray

/-- The number of leading rows whose key is at most `n`, found by bisection of `[lo, hi)`. -/
def bisect (key : Nat → Nat) (n : Nat) : Nat → Nat → Nat → Nat
  | 0, lo, _ => lo
  | fuel + 1, lo, hi =>
    if lo < hi then
      let mid := (lo + hi) / 2
      if key mid ≤ n then bisect key n fuel (mid + 1) hi else bisect key n fuel lo mid
    else lo

def rowsUpTo {α : Type} (table : Array α) (key : α → Nat) (n : Nat) : Nat :=
  bisect (fun i => (table[i]?.map key).getD 0) n table.size 0 table.size

def rowFor {α : Type} (table : Array α) (key : α → Nat) (n : Nat) : Option α :=
  match rowsUpTo table key n with
  | 0 => none
  | i + 1 => table[i]?

def inRanges (table : Array (Nat × Nat)) (n : Nat) : Bool :=
  match rowFor table (·.1) n with
  | some (_, hi) => n ≤ hi
  | none => false

def findValue (table : Array (Nat × Nat × Nat)) (n : Nat) : Option Nat :=
  match rowFor table (·.1) n with
  | some (_, hi, value) => if n ≤ hi then some value else none
  | none => none

def applyRuns (table : Array Run) (n : Nat) : Nat :=
  match rowFor table (·.lo) n with
  | some r => if n ≤ r.hi ∧ (n - r.lo) % r.step = 0 then r.target + (n - r.lo) else n
  | none => n

def findExpansion (table : Array (Nat × List Nat)) (n : Nat) : Option (List Nat) :=
  match rowFor table (·.1) n with
  | some (key, value) => if key = n then some value else none
  | none => none

end Tenure.Text
