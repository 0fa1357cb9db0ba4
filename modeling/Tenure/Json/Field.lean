import Tenure.Json.Basic
import Tenure.Text.Decimal

/- Reading typed values out of data. A reader updates a value that is already there, so a member
   that is given twice is read twice, the second time on top of the first; `null` leaves a value as
   it is. Any misfit makes the whole document unfit. -/
namespace Tenure.Json

structure Misfit where
  deriving DecidableEq, Repr

abbrev Reader (α : Type) := Json → α → Except Misfit α

def foldKeyChar (c : Char) : Char :=
  if c.toNat = 0x17F then 's' else if c.toNat = 0x212A then 'k' else c.toLower

def sameKey (a b : String) : Bool := a.toList.map foldKeyChar == b.toList.map foldKeyChar

/-- The field a member belongs to: the one spelled the same, else the first that differs in case
only. -/
def fieldFor (keys : List String) (key : String) : Option String :=
  if keys.contains key then some key else keys.find? (sameKey key)

def readStr : Reader String
  | .str s, _ => .ok s
  | .null, old => .ok old
  | _, _ => .error {}

def readBool : Reader Bool
  | .bool b, _ => .ok b
  | .null, old => .ok old
  | _, _ => .error {}

def decimal? (cs : List Char) : Option Nat :=
  if !cs.isEmpty && cs.all fun c => '0' ≤ c && c ≤ '9' then
    some (cs.foldl (fun n c => 10 * n + (c.toNat - 48)) 0)
  else none

def readNatBelow (bound : Nat) : Reader Nat
  | .num literal, _ => match decimal? literal.toList with
    | some n => if n < bound then .ok n else .error {}
    | none => .error {}
  | .null, old => .ok old
  | _, _ => .error {}

def read32 : Reader Nat := readNatBelow 4294967296

def readInt64 : Reader Int
  | .num literal, _ =>
    match literal.toList with
    | '-' :: ds => match decimal? ds with
      | some n => if n ≤ Text.int64Bound then .ok (-(n : Int)) else .error {}
      | none => .error {}
    | ds => match decimal? ds with
      | some n => if n < Text.int64Bound then .ok n else .error {}
      | none => .error {}
  | .null, old => .ok old
  | _, _ => .error {}

def readOpt {α : Type} (zero : α) (read : Reader α) : Reader (Option α)
  | .null, _ => .ok none
  | j, old => (read j (old.getD zero)).map some

/-- Elements are read on top of the elements that are there. -/
def readElems {α : Type} (zero : α) (read : Reader α) : List Json → List α → Except Misfit (List α)
  | [], _ => .ok []
  | j :: js, olds => do
    let x ← read j (olds.head?.getD zero)
    let xs ← readElems zero read js olds.tail
    return x :: xs

def readList {α : Type} (zero : α) (read : Reader α) : Reader (List α)
  | .null, _ => .ok []
  | .arr js, olds => readElems zero read js olds
  | _, _ => .error {}

/-- Exactly `n` elements: missing ones are zero, surplus ones are not looked at. -/
def readFixed {α : Type} (zero : α) (read : Reader α) (n : Nat) : Reader (List α)
  | .null, olds => .ok olds
  | .arr js, olds => do
    let xs ← readElems zero read (js.take n) olds
    return xs ++ List.replicate (n - xs.length) zero
  | _, _ => .error {}

/-- Reads the members one after another; a member that no field claims is ignored. -/
def readMembers {α : Type} (keys : List String) (set : String → Reader α) :
    List (String × Json) → α → Except Misfit α
  | [], x => .ok x
  | (key, j) :: ms, x => match fieldFor keys key with
    | some field => do
      let x ← set field j x
      readMembers keys set ms x
    | none => readMembers keys set ms x

def readObj {α : Type} (keys : List String) (set : String → Reader α) : Reader α
  | .obj ms, x => readMembers keys set ms x
  | .null, x => .ok x
  | _, _ => .error {}

end Tenure.Json
