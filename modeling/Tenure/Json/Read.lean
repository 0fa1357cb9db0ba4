import Tenure.Json.Basic
import Tenure.Text.Ranges

/- Reading documents. Every reader takes the front of the text and returns what is left; a text is
   a document when one value with blanks around it is all of it. -/
namespace Tenure.Json

def isSpace (c : Char) : Bool := c == ' ' || c == '\t' || c == '\n' || c == '\r'

def skipSpace (s : List Char) : List Char := s.dropWhile isSpace

def maxDepth : Nat := 10000

def isDigit (c : Char) : Bool := '0' ≤ c && c ≤ '9'

def isHexDigit (c : Char) : Bool :=
  isDigit c || ('a' ≤ c && c ≤ 'f') || ('A' ≤ c && c ≤ 'F')

def digits1 (s : List Char) : Option (List Char × List Char) :=
  let ds := s.takeWhile isDigit
  if ds.isEmpty then none else some (ds, s.dropWhile isDigit)

def fraction (s : List Char) : Option (List Char × List Char) :=
  match s with
  | '.' :: s => (digits1 s).map fun (ds, s) => ('.' :: ds, s)
  | s => some ([], s)

def exponent (s : List Char) : Option (List Char × List Char) :=
  match s with
  | e :: s =>
    if e = 'e' ∨ e = 'E' then
      match s with
      | sign :: t =>
        if sign = '+' ∨ sign = '-' then (digits1 t).map fun (ds, s) => (e :: sign :: ds, s)
        else (digits1 s).map fun (ds, s) => (e :: ds, s)
      | [] => none
    else some ([], e :: s)
  | [] => some ([], [])

def number (s : List Char) : Option (String × List Char) := do
  let (sign, s) := match s with
    | '-' :: s => (['-'], s)
    | s => ([], s)
  let (whole, s) ← match s with
    | '0' :: s => some (['0'], s)
    | s => digits1 s
  let (frac, s) ← fraction s
  let (exp, s) ← exponent s
  return (String.ofList (sign ++ whole ++ frac ++ exp), s)

def hexDigitValue (c : Char) : Nat := Text.digitValue c.toUpper

def unit16 (a b c d : Char) : Option Nat :=
  if isHexDigit a && isHexDigit b && isHexDigit c && isHexDigit d then
    some (((hexDigitValue a * 16 + hexDigitValue b) * 16 + hexDigitValue c) * 16 + hexDigitValue d)
  else none

def isSurrogate (n : Nat) : Bool := 0xD800 ≤ n && n < 0xE000

def pairValue (hi lo : Nat) : Option Nat :=
  if 0xD800 ≤ hi ∧ hi < 0xDC00 ∧ 0xDC00 ≤ lo ∧ lo < 0xE000 then
    some (0x10000 + (hi - 0xD800) * 0x400 + (lo - 0xDC00))
  else none

/-- One step of a text: its end, or one more character. Half a surrogate pair reads as the
replacement character. -/
inductive Step where
  | done (rest : List Char)
  | char (c : Char) (rest : List Char)
  | bad

def simpleEscape (c : Char) : Option Char :=
  match c with
  | '"' => some '"'
  | '\\' => some '\\'
  | '/' => some '/'
  | 'b' => some (Char.ofNat 8)
  | 'f' => some (Char.ofNat 12)
  | 'n' => some '\n'
  | 'r' => some '\r'
  | 't' => some '\t'
  | _ => none

def stringStep (s : List Char) : Step :=
  match s with
  | [] => .bad
  | '"' :: s => .done s
  | '\\' :: 'u' :: a :: b :: c :: d :: s =>
    match unit16 a b c d with
    | none => .bad
    | some n =>
      if isSurrogate n then
        match s with
        | '\\' :: 'u' :: e :: f :: g :: h :: t =>
          match (unit16 e f g h).bind (pairValue n) with
          | some m => .char (Char.ofNat m) t
          | none => .char (Char.ofNat 0xFFFD) s
        | _ => .char (Char.ofNat 0xFFFD) s
      else .char (Char.ofNat n) s
  | '\\' :: c :: s => match simpleEscape c with
    | some c => .char c s
    | none => .bad
  | c :: s => if c.toNat < 0x20 || c == '\\' then .bad else .char c s

def stringBody : Nat → List Char → List Char → Option (String × List Char)
  | 0, _, _ => none
  | fuel + 1, acc, s => match stringStep s with
    | .done rest => some (String.ofList acc.reverse, rest)
    | .char c rest => stringBody fuel (c :: acc) rest
    | .bad => none

def string (s : List Char) : Option (String × List Char) :=
  match s with
  | '"' :: s => stringBody (s.length + 1) [] s
  | _ => none

def word (w s : List Char) : Option (List Char) :=
  if w.isPrefixOf s then some (s.drop w.length) else none

mutual
def value : Nat → Nat → List Char → Option (Json × List Char)
  | 0, _, _ => none
  | fuel + 1, depth, s =>
    match skipSpace s with
    | '{' :: s =>
      if depth = 0 then none else match skipSpace s with
        | '}' :: s => some (.obj [], s)
        | s => (members fuel (depth - 1) s).map fun (ms, s) => (.obj ms, s)
    | '[' :: s =>
      if depth = 0 then none else match skipSpace s with
        | ']' :: s => some (.arr [], s)
        | s => (elements fuel (depth - 1) s).map fun (es, s) => (.arr es, s)
    | '"' :: s => (string ('"' :: s)).map fun (t, s) => (.str t, s)
    | 't' :: s => (word ['r', 'u', 'e'] s).map fun s => (.bool true, s)
    | 'f' :: s => (word ['a', 'l', 's', 'e'] s).map fun s => (.bool false, s)
    | 'n' :: s => (word ['u', 'l', 'l'] s).map fun s => (.null, s)
    | s => (number s).map fun (n, s) => (.num n, s)
def elements : Nat → Nat → List Char → Option (List Json × List Char)
  | 0, _, _ => none
  | fuel + 1, depth, s => do
    let (v, s) ← value fuel depth s
    match skipSpace s with
    | ',' :: s => (elements fuel depth s).map fun (vs, s) => (v :: vs, s)
    | ']' :: s => some ([v], s)
    | _ => none
def members : Nat → Nat → List Char → Option (List (String × Json) × List Char)
  | 0, _, _ => none
  | fuel + 1, depth, s => do
    let (key, s) ← string (skipSpace s)
    match skipSpace s with
    | ':' :: s => do
      let (v, s) ← value fuel depth s
      match skipSpace s with
      | ',' :: s => (members fuel depth s).map fun (ms, s) => ((key, v) :: ms, s)
      | '}' :: s => some ([(key, v)], s)
      | _ => none
    | _ => none
end

def parse? (s : String) : Option Json :=
  let cs := s.toList
  match value (cs.length + 1) maxDepth cs with
  | some (v, rest) => if (skipSpace rest).isEmpty then some v else none
  | none => none

end Tenure.Json
