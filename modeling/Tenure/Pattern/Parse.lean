import Tenure.Json.Field
import Tenure.Json.Read
import Tenure.Pattern.Basic

/- Reading patterns. -/
namespace Tenure.Pattern

structure Flags where
  fold : Bool := false
  multiLine : Bool := false
  dotAll : Bool := false
  lazy : Bool := false
  deriving Inhabited

def digitItem : ClassItem := { ranges := [(48, 57)] }
def spaceItem : ClassItem := { ranges := [(9, 10), (12, 13), (32, 32)] }
def wordItem : ClassItem := { ranges := [(48, 57), (65, 90), (95, 95), (97, 122)] }

def letterClass? : Char → Option ClassItem
  | 'd' => some digitItem
  | 'D' => some { digitItem with negated := true }
  | 's' => some spaceItem
  | 'S' => some { spaceItem with negated := true }
  | 'w' => some wordItem
  | 'W' => some { wordItem with negated := true }
  | _ => none

def bracketClass? (name : List Char) : Option (List (Nat × Nat)) :=
  match String.ofList name with
  | "alnum" => some [(48, 57), (65, 90), (97, 122)]
  | "alpha" => some [(65, 90), (97, 122)]
  | "ascii" => some [(0, 127)]
  | "blank" => some [(9, 9), (32, 32)]
  | "cntrl" => some [(0, 31), (127, 127)]
  | "digit" => some [(48, 57)]
  | "graph" => some [(33, 126)]
  | "lower" => some [(97, 122)]
  | "print" => some [(32, 126)]
  | "punct" => some [(33, 47), (58, 64), (91, 96), (123, 126)]
  | "space" => some [(9, 13), (32, 32)]
  | "upper" => some [(65, 90)]
  | "word" => some wordItem.ranges
  | "xdigit" => some [(48, 57), (65, 70), (97, 102)]
  | _ => none

def octal? (c : Char) : Option Nat := if '0' ≤ c ∧ c ≤ '7' then some (c.toNat - 48) else none

def isValidChar (n : Nat) : Bool := n < 0xD800 || (0xE000 ≤ n && n ≤ 0x10FFFF)

def hexDigits (cs : List Char) : Nat := cs.foldl (fun n c => 16 * n + Json.hexDigitValue c) 0

def octalRun : Nat → Nat → List Char → Nat × List Char
  | 0, acc, s => (acc, s)
  | _, acc, [] => (acc, [])
  | n + 1, acc, c :: s => match octal? c with
    | some d => octalRun n (8 * acc + d) s
    | none => (acc, c :: s)

def escape? (s : List Char) : Option (Nat × List Char) :=
  match s with
  | [] => none
  | 'x' :: '{' :: s =>
    let digits := s.takeWhile Json.isHexDigit
    match s.drop digits.length with
    | '}' :: rest =>
      if digits.isEmpty || 0x10FFFF < hexDigits digits then none else some (hexDigits digits, rest)
    | _ => none
  | 'x' :: a :: b :: s =>
    if Json.isHexDigit a && Json.isHexDigit b then some (hexDigits [a, b], s) else none
  | 'a' :: s => some (7, s)
  | 'f' :: s => some (12, s)
  | 'n' :: s => some (10, s)
  | 'r' :: s => some (13, s)
  | 't' :: s => some (9, s)
  | 'v' :: s => some (11, s)
  | '0' :: s => some (octalRun 2 0 s)
  | c :: s =>
    match octal? c, s with
    | some d, e :: _ => if (octal? e).isSome then some (octalRun 2 d s) else none
    | some _, [] => none
    | none, _ => if c.toNat < 128 && !c.isAlphanum then some (c.toNat, s) else none

def namedClass? (negated : Bool) (s : List Char) : Option (ClassItem × List Char) :=
  let item (name : List Char) (rest : List Char) : Option (ClassItem × List Char) :=
    let (name, flip) := match name with
      | '^' :: name => (name, true)
      | name => (name, false)
    (Text.classRanges? (String.ofList name)).map fun ranges =>
      ({ ranges, negated := negated != flip }, rest)
  match s with
  | '{' :: s =>
    let name := s.takeWhile (· != '}')
    match s.drop name.length with
    | _ :: rest => item name rest
    | [] => none
  | c :: s => item [c] s
  | [] => none

def classChar? (s : List Char) : Option (Nat × List Char) :=
  match s with
  | [] => none
  | '\\' :: s => escape? s
  | c :: s => some (c.toNat, s)

def findClose : List Char → Option (List Char × List Char)
  | [] => none
  | ':' :: ']' :: s => some ([], s)
  | c :: s => (findClose s).map fun (name, rest) => (c :: name, rest)

/-- A class with colons; `none` inside when the text is no such class. -/
def colonClass? (s : List Char) : Option (Option (ClassItem × List Char)) :=
  match s with
  | '[' :: ':' :: s =>
    match findClose s with
    | none => some none
    | some (name, rest) =>
      let (name, negated) := match name with
        | '^' :: name => (name, true)
        | name => (name, false)
      (bracketClass? name).map fun ranges => some ({ ranges, negated }, rest)
  | _ => some none

def classItems : Nat → Bool → List Char → Option (List ClassItem × List Char)
  | 0, _, _ => none
  | fuel + 1, first, s =>
    let more (item : ClassItem) (rest : List Char) : Option (List ClassItem × List Char) :=
      (classItems fuel false rest).map fun (items, rest) => (item :: items, rest)
    if !first && s.head? == some ']' then some ([], s.tail)
    else match colonClass? s with
      | none => none
      | some (some (item, rest)) => more item rest
      | some none =>
        let letter := match s with
          | '\\' :: c :: rest => (letterClass? c).map fun item => (item, rest)
          | _ => none
        match s, letter with
        | '\\' :: 'p' :: rest, _ => (namedClass? false rest).bind fun (item, rest) => more item rest
        | '\\' :: 'P' :: rest, _ => (namedClass? true rest).bind fun (item, rest) => more item rest
        | _, some (item, rest) => more item rest
        | _, none => do
          let (lo, rest) ← classChar? s
          match rest with
          | '-' :: c :: rest' =>
            if c = ']' then more { ranges := [(lo, lo)] } rest
            else do
              let (hi, rest) ← classChar? (c :: rest')
              if hi < lo then none else more { ranges := [(lo, hi)] } rest
          | _ => more { ranges := [(lo, lo)] } rest

def charClass? (flags : Flags) (s : List Char) : Option (CharSet × List Char) :=
  let (negated, s) := match s with
    | '^' :: s => (true, s)
    | s => (false, s)
  (classItems (s.length + 1) true s).map fun (items, rest) =>
    ({ items, negated, folded := flags.fold }, rest)

def count? (s : List Char) : Option (Nat × List Char) :=
  let ds := s.takeWhile Json.isDigit
  match ds with
  | [] => none
  | '0' :: _ :: _ => none
  | _ => (Json.decimal? ds).map fun n => (n, s.drop ds.length)

def bounds? (s : List Char) : Option (Nat × Option Nat × List Char) :=
  match count? s with
  | none => none
  | some (least, s) => match s with
    | '}' :: s => some (least, some least, s)
    | ',' :: '}' :: s => some (least, none, s)
    | ',' :: s => match count? s with
      | some (most, '}' :: s) => some (least, some most, s)
      | _ => none
    | _ => none

def literal (flags : Flags) (n : Nat) : Node :=
  .char { items := [{ ranges := [(n, n)] }], folded := flags.fold }

def single (flags : Flags) (item : ClassItem) : Node :=
  .char { items := [item], folded := flags.fold }

def anyChar (flags : Flags) : Node :=
  .char { items := [{ ranges := if flags.dotAll then [] else [(10, 10)] }], negated := true }

def isGroupName (name : List Char) : Bool := !name.isEmpty && name.all isWordChar

/-- Flags behind a question mark, up to a colon or the closing parenthesis. `on` tells which way they
are set, and `saw` whether one was set since the sign. -/
def flags? : Bool → Bool → Flags → List Char → Option (Flags × Bool × List Char)
  | _, _, _, [] => none
  | on, saw, f, c :: s =>
    match c with
    | 'i' => flags? on true { f with fold := on } s
    | 'm' => flags? on true { f with multiLine := on } s
    | 's' => flags? on true { f with dotAll := on } s
    | 'U' => flags? on true { f with lazy := on } s
    | '-' => if on then flags? false false f s else none
    | ':' => if !on && !saw then none else some (f, true, s)
    | ')' => if !on && !saw then none else some (f, false, s)
    | _ => none

inductive Opening where
  | capture (name : String) (rest : List Char)
  | plain (flags : Flags) (rest : List Char)
  | setFlags (flags : Flags) (rest : List Char)

def opening? (flags : Flags) (s : List Char) : Option Opening :=
  let named (s : List Char) : Option Opening :=
    let name := s.takeWhile (· != '>')
    match s.drop name.length with
    | _ :: rest => if isGroupName name then some (.capture (String.ofList name) rest) else none
    | [] => none
  match s with
  | '?' :: 'P' :: '<' :: s => named s
  | '?' :: '<' :: s => named s
  | '?' :: s => match flags? true false flags s with
    | some (f, true, rest) => some (.plain f rest)
    | some (f, false, rest) => some (.setFlags f rest)
    | none => none
  | s => some (.capture "" s)

def catOf (items : List Node) : Node :=
  match items with
  | [] => .empty
  | last :: before => before.foldl (fun n item => .cat item n) last

def altOf (alts : List Node) : Node :=
  match alts with
  | [] => .empty
  | last :: before => before.foldl (fun n alt => .alt alt n) last

/-- A repetition of the last item. Two in a row are refused. -/
def repeated? (flags : Flags) (items : List Node) (again : Bool) (least : Nat) (most : Option Nat)
    (s : List Char) : Option (List Node × List Char) :=
  let (lazy, s) := match s with
    | '?' :: s => (true, s)
    | s => (false, s)
  match items with
  | [] => none
  | item :: before =>
    let n := Node.repetition least most (lazy == flags.lazy) item
    if again || !n.copiesWithin 1000 then none else some (n :: before, s)

def splitQuote : List Char → List Char × List Char
  | [] => ([], [])
  | '\\' :: 'E' :: s => ([], s)
  | c :: s => let (q, rest) := splitQuote s; (c :: q, rest)

inductive Escaped where
  | nodes (ns : List Node) (rest : List Char)
  | bad

def escaped (flags : Flags) (s : List Char) : Escaped :=
  let one (n : Node) (rest : List Char) : Escaped := .nodes [n] rest
  match s with
  | 'A' :: s => one (.assertion .beginText) s
  | 'z' :: s => one (.assertion .endText) s
  | 'b' :: s => one (.assertion .wordEdge) s
  | 'B' :: s => one (.assertion .noWordEdge) s
  | 'C' :: _ => .bad
  | 'Q' :: s =>
    let (quote, rest) := splitQuote s
    .nodes (quote.map fun c => literal flags c.toNat).reverse rest
  | 'p' :: s => match namedClass? false s with
    | some (item, rest) => one (single flags item) rest
    | none => .bad
  | 'P' :: s => match namedClass? true s with
    | some (item, rest) => one (single flags item) rest
    | none => .bad
  | c :: rest => match letterClass? c with
    | some item => one (single flags item) rest
    | none => match escape? s with
      | some (n, rest) => one (literal flags n) rest
      | none => .bad
  | [] => .bad

def maxDepth : Nat := 1000

/-- A pattern up to its end, or up to the parenthesis that closes it. `alts` and `items` are what was
read, last first; `names` are the groups opened so far; `again` tells that a repetition was last. -/
def body : Nat → Nat → Flags → List Node → List Node → Bool → List String → List Char →
    Option (Node × List String × List Char)
  | 0, _, _, _, _, _, _, _ => none
  | fuel + 1, depth, flags, alts, items, again, names, s =>
    let next (item : Node) (s : List Char) : Option (Node × List String × List Char) :=
      body fuel depth flags alts (item :: items) false names s
    let repetition (least : Nat) (most : Option Nat) (s : List Char) :
        Option (Node × List String × List Char) :=
      (repeated? flags items again least most s).bind fun (items, s) =>
        body fuel depth flags alts items true names s
    match s with
    | [] => if depth = 0 then some (altOf (catOf items :: alts), names, []) else none
    | ')' :: s => if depth = 0 then none else some (altOf (catOf items :: alts), names, s)
    | '|' :: s => body fuel depth flags (catOf items :: alts) [] false names s
    | '(' :: s =>
      if maxDepth ≤ depth + 1 then none
      else match opening? flags s with
        | none => none
        | some (.setFlags flags s) => body fuel depth flags alts items false names s
        | some (.plain inner s) => do
          let (n, names, s) ← body fuel (depth + 1) inner [] [] false names s
          body fuel depth flags alts (n :: items) false names s
        | some (.capture name s) => do
          let index := names.length + 1
          let (n, names, s) ← body fuel (depth + 1) flags [] [] false (names ++ [name]) s
          body fuel depth flags alts (.group index n :: items) false names s
    | '^' :: s => next (.assertion (if flags.multiLine then .beginLine else .beginText)) s
    | '$' :: s => next (.assertion (if flags.multiLine then .endLine else .endText)) s
    | '.' :: s => next (anyChar flags) s
    | '[' :: s => (charClass? flags s).bind fun (set, s) => next (.char set) s
    | '*' :: s => repetition 0 none s
    | '+' :: s => repetition 1 none s
    | '?' :: s => repetition 0 (some 1) s
    | '{' :: s => match bounds? s with
      | none => next (literal flags '{'.toNat) s
      | some (least, most, s) =>
        if 1000 < least || 1000 < most.getD 0 || (most.isSome && most.getD 0 < least) then none
        else repetition least most s
    | '\\' :: s => match escaped flags s with
      | .bad => none
      | .nodes ns s => body fuel depth flags alts (ns ++ items) false names s
    | c :: s => next (literal flags c.toNat) s

end Tenure.Pattern

namespace Tenure

def Pattern.parse? (s : String) : Option Pattern :=
  (Pattern.body (s.length + 1) 0 {} [] [] false [] s.toList).map fun (node, groups, _) =>
    { node, groups }

end Tenure
