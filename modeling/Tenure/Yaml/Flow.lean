import Tenure.Yaml.Scalar

/- Lists and tables in brackets. -/
namespace Tenure.Yaml

def skipFlow : Nat → Bool → List Char → List Char
  | 0, _, s => s
  | fuel + 1, blank, s =>
    match s with
    | [] => []
    | c :: rest =>
      if isSpaceChar c || isBreak c then skipFlow fuel true rest
      else if c = '#' ∧ blank then skipFlow fuel true (rest.dropWhile fun c => !isBreak c)
      else s

def skip (s : List Char) : List Char := skipFlow (s.length + 1) true s

def isFlowMark (c : Char) : Bool := [',', '[', ']', '{', '}'].contains c

def flowPlain : List Char → Char → List Char → List Char × List Char
  | acc, _, [] => (acc, [])
  | acc, prev, c :: s =>
    if isFlowMark c || isBreak c then (acc, c :: s)
    else if c = ':' && (match s with
        | [] => true
        | d :: _ => isSpaceChar d || isBreak d || isFlowMark d) then (acc, c :: s)
    else if c = '#' && isSpaceChar prev then (acc, c :: s)
    else flowPlain (c :: acc) c s

def isIndicator (c : Char) : Bool :=
  [',', '[', ']', '{', '}', '#', '&', '*', '!', '|', '>', '\'', '"', '%', '@', '`'].contains c

def flowScalar (s : List Char) : Option (Yaml × List Char) :=
  match s with
  | [] => none
  | c :: rest =>
    if c = '"' ∨ c = '\'' then (quoted? s).map fun (t, s) => (.scalar false t, s)
    else if isIndicator c then none
    else if c = '-' ∧ (rest.head?.map isSpaceChar).getD true then none
    else
      let (acc, rest) := flowPlain [] ' ' s
      some (.scalar true (Text.trim (String.ofList acc.reverse)), rest)

mutual
def flowNode : Nat → List Char → Option (Yaml × List Char)
  | 0, _ => none
  | fuel + 1, s =>
    match s with
    | '[' :: s => (flowItems fuel (skip s)).map fun (items, s) => (.seq items, s)
    | '{' :: s => (flowMembers fuel (skip s)).map fun (ms, s) => (.map ms, s)
    | s => flowScalar s
def flowItems : Nat → List Char → Option (List Yaml × List Char)
  | 0, _ => none
  | fuel + 1, s =>
    match s with
    | ']' :: s => some ([], s)
    | s => do
      let (item, s) ← flowNode fuel s
      let s := skip s
      let (item, s) ← match s with
        | ':' :: s => do
          let s := skip s
          match s with
          | ',' :: _ | ']' :: _ => some (.map [(item, .null)], s)
          | _ => (flowNode fuel s).map fun (v, s) => (.map [(item, v)], skip s)
        | s => some (item, s)
      match s with
      | ',' :: s => (flowItems fuel (skip s)).map fun (items, s) => (item :: items, s)
      | ']' :: s => some ([item], s)
      | _ => none
def flowMembers : Nat → List Char → Option (List (Yaml × Yaml) × List Char)
  | 0, _ => none
  | fuel + 1, s =>
    match s with
    | '}' :: s => some ([], s)
    | s => do
      let (key, s) ← flowNode fuel s
      let s := skip s
      let (value, s) ← match s with
        | ':' :: s => do
          let s := skip s
          match s with
          | ',' :: _ | '}' :: _ => some (.null, s)
          | _ => (flowNode fuel s).map fun (v, s) => (v, skip s)
        | s => some (.null, s)
      match s with
      | ',' :: s => (flowMembers fuel (skip s)).map fun (ms, s) => ((key, value) :: ms, s)
      | '}' :: s => some ([(key, value)], s)
      | _ => none
end

def flow? (s : List Char) : Option (Yaml × List Char) := flowNode (s.length + 1) s

end Tenure.Yaml
