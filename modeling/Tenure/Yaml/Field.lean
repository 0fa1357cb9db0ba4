import Tenure.Json.Read
import Tenure.Text.Decimal
import Tenure.Yaml.Basic

/- What a document has to hold at a place. Nothing at all is never a misfit: it stands for the empty
   text, list or table. -/
namespace Tenure.Yaml

def sameKey : Yaml → Yaml → Bool
  | .scalar _ a, .scalar _ b => a == b
  | .seq _, .seq _ => true
  | .map _, .map _ => true
  | _, _ => false

def distinctKeys : List (Yaml × Yaml) → Bool
  | [] => true
  | (k, _) :: ms => !(ms.any fun m => sameKey k m.1) && distinctKeys ms

def text? : Yaml → Option String
  | y@(.scalar _ t) => some (if y.isNull then "" else t)
  | _ => none

def texts? : Yaml → Option (List String)
  | .seq items => (items.filter fun i => !i.isNull).mapM text?
  | y => if y.isNull then some [] else none

def items? : Yaml → Option (List Yaml)
  | .seq items => some items
  | y => if y.isNull then some [] else none

def members? : Yaml → Option (List (String × Yaml))
  | .map ms =>
    if distinctKeys ms then
      (ms.filter fun m => !m.1.isNull).mapM fun (k, v) => (text? k).map (·, v)
    else none
  | y => if y.isNull then some [] else none

def member (name : String) (ms : List (String × Yaml)) : Yaml := (ms.lookup name).getD .null

def textTable? (y : Yaml) : Option (List (String × String)) := do
  let ms ← y.members?
  ms.mapM fun (k, v) => (text? v).map (k, ·)

def digitIn (base : Nat) (c : Char) : Option Nat :=
  let v := if Json.isHexDigit c then Json.hexDigitValue c else base
  if v < base then some v else none

def natIn? (base : Nat) (ds : List Char) : Option Nat :=
  if ds.isEmpty then none
  else ds.foldlM (fun n c => (digitIn base c).map (base * n + ·)) 0

/-- Digits of a whole number; a leading letter or zero tells the base. -/
def whole? (ds : List Char) : Option Nat :=
  match ds with
  | '0' :: 'x' :: ds | '0' :: 'X' :: ds => natIn? 16 ds
  | '0' :: 'o' :: ds | '0' :: 'O' :: ds => natIn? 8 ds
  | '0' :: 'b' :: ds | '0' :: 'B' :: ds => natIn? 2 ds
  | ['0'] => some 0
  | '0' :: ds => natIn? 8 ds
  | ds => natIn? 10 ds

def truncated? (ds : List Char) : Option Nat := do
  let whole := ds.takeWhile Json.isDigit
  let rest := ds.drop whole.length
  let (frac, rest) := match rest with
    | '.' :: rest => (rest.takeWhile Json.isDigit, rest.dropWhile Json.isDigit)
    | rest => ([], rest)
  if whole.isEmpty ∧ frac.isEmpty then none
  else
    let digits := whole ++ frac
    let exp : Option Int := match rest with
      | [] => some 0
      | e :: rest =>
        if e = 'e' ∨ e = 'E' then
          match rest with
          | '-' :: ds => (natIn? 10 ds).map fun n => -(n : Int)
          | '+' :: ds => (natIn? 10 ds).map Int.ofNat
          | ds => (natIn? 10 ds).map Int.ofNat
        else none
    let exp ← exp
    let n ← natIn? 10 digits
    let shift := exp - frac.length
    if 400 < shift.natAbs then some 0
    else if 0 ≤ shift then some (n * Nat.pow 10 shift.toNat) else some (n / Nat.pow 10 shift.natAbs)

/-- A whole number; a fraction loses what is behind its point. -/
def int? : Yaml → Option Int
  | y@(.scalar plain t) =>
    if y.isNull then some 0
    else if !plain then none
    else
      let cs := t.toList.filter (· != '_')
      let (negative, ds) := match cs with
        | '-' :: ds => (true, ds)
        | '+' :: ds => (false, ds)
        | ds => (false, ds)
      ((whole? ds).or (truncated? ds)).bind fun n =>
        if n < Text.int64Bound then some (if negative then -(n : Int) else n) else none
  | _ => none

end Tenure.Yaml
