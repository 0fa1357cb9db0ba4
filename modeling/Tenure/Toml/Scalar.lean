import Tenure.Json.Field
import Tenure.Json.Read
import Tenure.Toml.Basic

/- Keys and single values of manifests. -/
namespace Tenure.Toml

def isSpaceChar (c : Char) : Bool := c == ' ' || c == '\t'

def skipSpaces (s : List Char) : List Char := s.dropWhile isSpaceChar

def simpleEscape (c : Char) : Option Char :=
  match c with
  | 'b' => some (Char.ofNat 8)
  | 't' => some '\t'
  | 'n' => some '\n'
  | 'f' => some (Char.ofNat 12)
  | 'r' => some '\r'
  | '"' => some '"'
  | '\\' => some '\\'
  | _ => none

def codeEscape (digits : Nat) (s : List Char) : Option (Char × List Char) :=
  let ds := s.take digits
  let n := ds.foldl (fun n c => 16 * n + Json.hexDigitValue c) 0
  if ds.length = digits ∧ ds.all Json.isHexDigit ∧ ¬ Json.isSurrogate n ∧ n ≤ 0x10FFFF then
    some (Char.ofNat n, s.drop digits)
  else none

def escape? (s : List Char) : Option (Char × List Char) :=
  match s with
  | 'u' :: s => codeEscape 4 s
  | 'U' :: s => codeEscape 8 s
  | c :: s => (simpleEscape c).map (·, s)
  | [] => none

def basicString : Nat → List Char → List Char → Option (String × List Char)
  | 0, _, _ => none
  | fuel + 1, acc, s =>
    match s with
    | '"' :: s => some (String.ofList acc.reverse, s)
    | '\\' :: s => (escape? s).bind fun (c, s) => basicString fuel (c :: acc) s
    | c :: s => if c = '\n' ∨ c = '\r' then none else basicString fuel (c :: acc) s
    | [] => none

def literalString (s : List Char) : Option (String × List Char) :=
  let body := s.takeWhile (· != '\'')
  if body.contains '\n' then none
  else match s.drop body.length with
    | '\'' :: rest => some (String.ofList body, rest)
    | _ => none

/-- Blanks and line ends behind a backslash at the end of a line. -/
def skipContinuation (s : List Char) : Option (List Char) :=
  let rest := skipSpaces s
  match rest with
  | '\n' :: _ => some (rest.dropWhile fun c => isSpaceChar c || c == '\n' || c == '\r')
  | '\r' :: '\n' :: _ => some (rest.dropWhile fun c => isSpaceChar c || c == '\n' || c == '\r')
  | _ => none

/-- Three quotes end a text of several lines; two more may stand before them. -/
def closing (q : Char) (s : List Char) : Option (List Char × List Char) :=
  let run := s.takeWhile (· == q)
  if 3 ≤ run.length ∧ run.length ≤ 5 then some (run.drop 3, s.drop run.length) else none

def multiline (q : Char) : Nat → List Char → List Char → Option (String × List Char)
  | 0, _, _ => none
  | fuel + 1, acc, s =>
    match s with
    | [] => none
    | c :: rest =>
      if c = q then
        match closing q s with
        | some (extra, rest) => some (String.ofList (acc.reverse ++ extra), rest)
        | none =>
          if 2 < (s.takeWhile (· == q)).length then none else multiline q fuel (c :: acc) rest
      else if c = '\\' ∧ q = '"' then
        match skipContinuation rest with
        | some rest => multiline q fuel acc rest
        | none => (escape? rest).bind fun (c, rest) => multiline q fuel (c :: acc) rest
      else multiline q fuel (c :: acc) rest

def dropFirstBreak : List Char → List Char
  | '\n' :: s => s
  | '\r' :: '\n' :: s => s
  | s => s

def string? (s : List Char) : Option (String × List Char) :=
  match s with
  | '"' :: '"' :: '"' :: s => multiline '"' (s.length + 1) [] (dropFirstBreak s)
  | '\'' :: '\'' :: '\'' :: s => multiline '\'' (s.length + 1) [] (dropFirstBreak s)
  | '"' :: s => basicString (s.length + 1) [] s
  | '\'' :: s => literalString s
  | _ => none

def keyPart? (s : List Char) : Option (String × List Char) :=
  match s with
  | '"' :: s => basicString (s.length + 1) [] s
  | '\'' :: s => literalString s
  | s =>
    let bare := s.takeWhile isBareChar
    if bare.isEmpty then none else some (String.ofList bare, s.drop bare.length)

def key? : Nat → List Char → Option (Key × List Char)
  | 0, _ => none
  | fuel + 1, s => do
    let (part, s) ← keyPart? (skipSpaces s)
    match skipSpaces s with
    | '.' :: s =>
      let (rest, s) ← key? fuel s
      return (part :: rest, s)
    | s => return ([part], s)

/-- Underscores stand between digits only. -/
def digitsOf (isDigit : Char → Bool) (s : List Char) : Option (List Char) :=
  let rec go (prev : Bool) : List Char → Option (List Char)
    | [] => if prev then some [] else none
    | c :: s =>
      if c = '_' then (if prev ∧ (s.head?.map isDigit).getD false then go false s else none)
      else if isDigit c then (go true s).map (c :: ·)
      else none
  go false s

def natOf (base : Nat) (ds : List Char) : Nat :=
  ds.foldl (fun n c => base * n + Json.hexDigitValue c) 0

def based (base : Nat) (isDigit : Char → Bool) (s : List Char) : Option Toml :=
  (digitsOf isDigit s).bind fun ds =>
    let n := natOf base ds
    if n < Text.int64Bound then some (.int n) else none

def decimalInt (negative : Bool) (s : List Char) : Option Toml :=
  (digitsOf Json.isDigit s).bind fun ds =>
    if ds.head? = some '0' ∧ 1 < ds.length then none
    else
      let n := natOf 10 ds
      if negative then (if n ≤ Text.int64Bound then some (.int (-(n : Int))) else none)
      else if n < Text.int64Bound then some (.int n) else none

def isFloat (s : List Char) : Bool :=
  let whole := s.takeWhile fun c => Json.isDigit c || c == '_'
  let okWhole := match digitsOf Json.isDigit whole with
    | some ds => !(ds.head? == some '0' && decide (1 < ds.length))
    | none => false
  let rest := s.drop whole.length
  let (okFrac, hasFrac, rest) := match rest with
    | '.' :: rest =>
      let frac := rest.takeWhile fun c => Json.isDigit c || c == '_'
      ((digitsOf Json.isDigit frac).isSome, true, rest.drop frac.length)
    | rest => (true, false, rest)
  let (okExp, hasExp) := match rest with
    | [] => (true, false)
    | e :: rest =>
      let ds := match rest with
        | '+' :: ds | '-' :: ds => ds
        | ds => ds
      ((e == 'e' || e == 'E') && (digitsOf Json.isDigit ds).isSome, true)
  okWhole && okFrac && okExp && (hasFrac || hasExp)

def number? (token : List Char) : Option Toml :=
  let (sign, body) := match token with
    | '-' :: s => (some true, s)
    | '+' :: s => (some false, s)
    | s => (none, s)
  if body = "inf".toList ∨ body = "nan".toList then some .float
  else match sign, body with
    | none, '0' :: 'x' :: ds => based 16 Json.isHexDigit ds
    | none, '0' :: 'o' :: ds => based 8 (fun c => '0' ≤ c && c ≤ '7') ds
    | none, '0' :: 'b' :: ds => based 2 (fun c => c == '0' || c == '1') ds
    | _, _ => (decimalInt (sign == some true) body).or (if isFloat body then some .float else none)

def twoDigits (s : List Char) : Option (Nat × List Char) :=
  match s with
  | a :: b :: s =>
    if Json.isDigit a ∧ Json.isDigit b then some (10 * (a.toNat - 48) + (b.toNat - 48), s) else none
  | _ => none

def daysIn (year month : Nat) : Nat :=
  if month = 2 then (if year % 4 = 0 ∧ (year % 100 ≠ 0 ∨ year % 400 = 0) then 29 else 28)
  else if [4, 6, 9, 11].contains month then 30 else 31

def date? (s : List Char) : Option (List Char) := do
  let (a, s) ← twoDigits s
  let (b, s) ← twoDigits s
  match s with
  | '-' :: s =>
    let (month, s) ← twoDigits s
    match s with
    | '-' :: s =>
      let (day, s) ← twoDigits s
      if 1 ≤ month ∧ month ≤ 12 ∧ 1 ≤ day ∧ day ≤ daysIn (100 * a + b) month then some s else none
    | _ => none
  | _ => none

def clock? (s : List Char) : Option (List Char) := do
  let (hour, s) ← twoDigits s
  match s with
  | ':' :: s =>
    let (minute, s) ← twoDigits s
    match s with
    | ':' :: s =>
      let (second, s) ← twoDigits s
      if 23 < hour ∨ 59 < minute ∨ 59 < second then none
      else match s with
        | '.' :: s =>
          let frac := s.takeWhile Json.isDigit
          if frac.isEmpty then none else some (s.drop frac.length)
        | s => some s
    | _ => none
  | _ => none

def offset? (s : List Char) : Bool :=
  match s with
  | [] => true
  | ['Z'] | ['z'] => true
  | c :: s =>
    if c = '+' ∨ c = '-' then
      match twoDigits s with
      | some (hour, ':' :: s) => match twoDigits s with
        | some (minute, []) => hour ≤ 24 && minute ≤ 60
        | _ => false
      | _ => false
    else false

def isTime (token : List Char) : Bool :=
  match date? token with
  | some [] => true
  | some (c :: s) =>
    if c = 'T' ∨ c = 't' ∨ c = ' ' then
      match clock? s with
      | some rest => offset? rest
      | none => false
    else false
  | none => clock? token == some []

def isTokenChar (c : Char) : Bool := c.isAlphanum || ['_', '-', '+', '.', ':'].contains c

/-- A value without quotes and brackets. A blank may stand between a date and a time of day. -/
def bare? (s : List Char) : Option (Toml × List Char) :=
  let token := s.takeWhile isTokenChar
  let rest := s.drop token.length
  let (token, rest) := match date? token, rest with
    | some [], ' ' :: more =>
      let clock := more.takeWhile isTokenChar
      if (clock.head?.map Json.isDigit).getD false then (token ++ ' ' :: clock, more.drop clock.length)
      else (token, rest)
    | _, _ => (token, rest)
  if token = "true".toList then some (.bool true, rest)
  else if token = "false".toList then some (.bool false, rest)
  else ((number? token).or (if isTime token then some .time else none)).map (·, rest)

end Tenure.Toml
