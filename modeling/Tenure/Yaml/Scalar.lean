import Tenure.Json.Read
import Tenure.Text.Blank
import Tenure.Yaml.Basic

/- Texts in quotes. -/
namespace Tenure.Yaml

def isSpaceChar (c : Char) : Bool := c == ' ' || c == '\t'

def isBreak (c : Char) : Bool := c == '\n' || c == '\r'

def simpleEscape (c : Char) : Option Nat :=
  match c with
  | '0' => some 0
  | 'a' => some 7
  | 'b' => some 8
  | 't' | '\t' => some 9
  | 'n' => some 10
  | 'v' => some 11
  | 'f' => some 12
  | 'r' => some 13
  | 'e' => some 27
  | ' ' => some 32
  | '"' => some 34
  | '/' => some 47
  | '\\' => some 92
  | 'N' => some 0x85
  | '_' => some 0xA0
  | 'L' => some 0x2028
  | 'P' => some 0x2029
  | _ => none

def escapeDigits (c : Char) : Nat :=
  match c with
  | 'x' => 2
  | 'u' => 4
  | 'U' => 8
  | _ => 0

def numericEscape (digits : Nat) (s : List Char) : Option (Char × List Char) :=
  let ds := s.take digits
  let n := ds.foldl (fun n c => 16 * n + Json.hexDigitValue c) 0
  if ds.length = digits ∧ ds.all Json.isHexDigit ∧ ¬ Json.isSurrogate n ∧ n ≤ 0x10FFFF then
    some (Char.ofNat n, s.drop digits)
  else none

/-- A line break inside a text with the blanks around it: one break is a blank, more are all but one
of them. -/
def foldBreaks (acc s : List Char) : List Char × List Char :=
  let lead := acc.dropWhile isSpaceChar
  let blanks := s.takeWhile fun c => isSpaceChar c || isBreak c
  let count := (blanks.filter (· == '\n')).length
  let joined := if count ≤ 1 then [' '] else List.replicate (count - 1) '\n'
  (joined ++ lead, s.drop blanks.length)

def doubleQuoted : Nat → List Char → List Char → Option (String × List Char)
  | 0, _, _ => none
  | fuel + 1, acc, s =>
    match s with
    | [] => none
    | '"' :: s => some (String.ofList acc.reverse, s)
    | '\\' :: c :: s =>
      if c = '\n' then doubleQuoted fuel acc (s.dropWhile isSpaceChar)
      else match simpleEscape c with
        | some n => doubleQuoted fuel (Char.ofNat n :: acc) s
        | none =>
          if escapeDigits c = 0 then none
          else match numericEscape (escapeDigits c) s with
            | some (d, s) => doubleQuoted fuel (d :: acc) s
            | none => none
    | c :: s =>
      if c = '\n' then
        let (acc, s) := foldBreaks acc (c :: s)
        doubleQuoted fuel acc s
      else if c = '\\' then none
      else doubleQuoted fuel (c :: acc) s

def singleQuoted : Nat → List Char → List Char → Option (String × List Char)
  | 0, _, _ => none
  | fuel + 1, acc, s =>
    match s with
    | [] => none
    | '\'' :: '\'' :: s => singleQuoted fuel ('\'' :: acc) s
    | '\'' :: s => some (String.ofList acc.reverse, s)
    | c :: s =>
      if c = '\n' then
        let (acc, s) := foldBreaks acc (c :: s)
        singleQuoted fuel acc s
      else singleQuoted fuel (c :: acc) s

def quoted? (s : List Char) : Option (String × List Char) :=
  match s with
  | '"' :: s => doubleQuoted (s.length + 1) [] s
  | '\'' :: s => singleQuoted (s.length + 1) [] s
  | _ => none

end Tenure.Yaml
