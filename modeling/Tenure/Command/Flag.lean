import Tenure.Text.Blank
import Tenure.Text.Bytes
import Tenure.Text.Decimal
import Tenure.Text.Letter
import Tenure.Text.Quoted

/- Flags of a command line: the values that can be written for them, and reading a line of
   arguments. -/
namespace Tenure.Command

inductive FlagKind where
  | text
  | bool
  | int
  | duration
  deriving DecidableEq, Repr

structure Flag where
  name : String
  short : Option Char := none
  kind : FlagKind := .text
  default : String := ""
  usage : String
  deriving DecidableEq, Repr

inductive Value where
  | text (s : String)
  | bool (b : Bool)
  | int (n : Int)
  | duration (n : Int)
  deriving DecidableEq, Repr

inductive ValueFault where
  | notBool (s : String)
  | notInt (s : String)
  | intRange (s : String)
  | notDuration (s : String)
  | noUnit (s : String)
  | badUnit (unit s : String)
  deriving DecidableEq, Repr

def ValueFault.message : ValueFault → String
  | .notBool s => s!"strconv.ParseBool: parsing {Text.quoted s}: invalid syntax"
  | .notInt s => s!"strconv.ParseInt: parsing {Text.quoted s}: invalid syntax"
  | .intRange s => s!"strconv.ParseInt: parsing {Text.quoted s}: value out of range"
  | .notDuration s => s!"time: invalid duration {Text.quoted s}"
  | .noUnit s => s!"time: missing unit in duration {Text.quoted s}"
  | .badUnit unit s => s!"time: unknown unit {Text.quoted unit} in duration {Text.quoted s}"

def parseBool? : String → Option Bool
  | "1" | "t" | "T" | "TRUE" | "true" | "True" => some true
  | "0" | "f" | "F" | "FALSE" | "false" | "False" => some false
  | _ => none

def signed (s : String) : Bool × List Char :=
  match s.toList with
  | '-' :: cs => (true, cs)
  | '+' :: cs => (false, cs)
  | cs => (false, cs)

/-- The base that a number announces, whether it does so, and its digits. A leading zero alone means
octal. -/
def numberBase : List Char → Nat × Bool × List Char
  | '0' :: c :: rest =>
    match c.toLower with
    | 'x' => (16, true, rest)
    | 'b' => (2, true, rest)
    | 'o' => (8, true, rest)
    | _ => (8, true, c :: rest)
  | cs => (10, false, cs)

/-- Underscores stand between digits, or between the mark of the base and a digit. `before` tells
whether one of those has just been read. -/
def underscoresFit (before : Bool) : List Char → Bool
  | [] => true
  | '_' :: rest => before && !rest.isEmpty && underscoresFit false rest
  | _ :: rest => underscoresFit true rest

def digit (c : Char) : Nat :=
  if c.isDigit then c.toNat - 48
  else if 'a' ≤ c.toLower ∧ c.toLower ≤ 'z' then c.toLower.toNat - 87
  else 36

def digitsValue? (base : Nat) (cs : List Char) : Option Nat :=
  if cs.isEmpty then none
  else cs.foldlM (fun n c => if digit c < base then some (n * base + digit c) else none) 0

/-- A signed whole number of 64 bits in any base. -/
def parseInt (s : String) : Except ValueFault Int :=
  let (negative, cs) := signed s
  let (base, marked, ds) := numberBase cs
  if !underscoresFit marked ds then .error (.notInt s)
  else match digitsValue? base (ds.filter (· != '_')) with
    | none => .error (.notInt s)
    | some n =>
      let z : Int := if negative then -n else n
      if -(Text.int64Bound : Int) ≤ z ∧ z < Text.int64Bound then .ok z else .error (.intRange s)

def unitLength? : String → Option Nat
  | "ns" => some 1
  | "us" | "µs" | "μs" => some 1000
  | "ms" => some 1000000
  | "s" => some 1000000000
  | "m" => some 60000000000
  | "h" => some 3600000000000
  | _ => none

def isUnitChar (c : Char) : Bool := c != '.' && !c.isDigit

def durationParts (all : String) : Nat → Nat → List Char → Except ValueFault Nat
  | _, total, [] => .ok total
  | 0, _, _ => .error (.notDuration all)
  | fuel + 1, total, cs =>
    let whole := cs.takeWhile Char.isDigit
    let (frac, rest) := match cs.dropWhile Char.isDigit with
      | '.' :: r => (r.takeWhile Char.isDigit, r.dropWhile Char.isDigit)
      | r => ([], r)
    let unit := String.ofList (rest.takeWhile isUnitChar)
    if whole.isEmpty ∧ frac.isEmpty then .error (.notDuration all)
    else if unit.isEmpty then .error (.noUnit all)
    else match unitLength? unit with
      | none => .error (.badUnit unit all)
      | some length =>
        let part := (digitsValue? 10 frac).getD 0 * length / Nat.pow 10 frac.length
        let total := total + (digitsValue? 10 whole).getD 0 * length + part
        if Text.int64Bound < total then .error (.notDuration all)
        else durationParts all fuel total (rest.dropWhile isUnitChar)

def parseDuration (s : String) : Except ValueFault Int := do
  let (negative, cs) := signed s
  if cs = ['0'] then return 0
  if cs.isEmpty then throw (.notDuration s)
  let n ← durationParts s cs.length 0 cs
  let z : Int := if negative then -n else n
  if z < Text.int64Bound then return z else throw (.notDuration s)

namespace Flag

def standsAlone (f : Flag) : Bool := f.kind == .bool

def parse (f : Flag) (s : String) : Except ValueFault Value :=
  match f.kind with
  | .text => .ok (.text s)
  | .bool => match parseBool? s with
    | some b => .ok (.bool b)
    | none => .error (.notBool s)
  | .int => (parseInt s).map .int
  | .duration => (parseDuration s).map .duration

def label (f : Flag) : String :=
  match f.short with
  | some c => s!"-{c}, --{f.name}"
  | none => s!"--{f.name}"

end Flag

inductive ArgFault where
  | badSyntax (arg : String)
  | unknownFlag (name : String)
  | unknownShort (letters : String)
  | noValue (name : String)
  | badValue (f : Flag) (value : String) (why : ValueFault)
  deriving DecidableEq, Repr

namespace ArgFault

def letter (letters : String) : String :=
  let c := Char.ofNat (((Bytes.ofString letters).head?.map UInt8.toNat).getD 0)
  if c = '\'' then "'\\''"
  else if c = '"' then "'\"'"
  else s!"'{String.ofList (Text.quotedChar c)}'"

def message : ArgFault → String
  | .badSyntax arg => s!"bad flag syntax: {arg}"
  | .unknownFlag name => s!"unknown flag: --{name}"
  | .unknownShort letters => s!"unknown shorthand flag: {letter letters} in -{letters}"
  | .noValue name => s!"flag needs an argument: --{name}"
  | .badValue f value why =>
    s!"invalid argument {Text.quoted value} for {Text.quoted f.label} flag: {why.message}"

end ArgFault

structure Settings where
  flags : List (String × Value) := []
  args : List String := []
  deriving DecidableEq, Repr

namespace Settings

def put (s : Settings) (name : String) (v : Value) : Settings :=
  { s with flags := (name, v) :: s.flags }

def set (s : Settings) (f : Flag) (value : String) : Except ArgFault Settings :=
  match f.parse value with
  | .ok v => .ok (s.put f.name v)
  | .error why => .error (.badValue f value why)

def text (s : Settings) (name : String) (default : String := "") : String :=
  match s.flags.lookup name with
  | some (.text t) => t
  | _ => default

def bool (s : Settings) (name : String) : Bool := s.flags.lookup name == some (.bool true)

def int (s : Settings) (name : String) (default : Int := 0) : Int :=
  match s.flags.lookup name with
  | some (.int n) => n
  | _ => default

end Settings

def flagNamed (fs : List Flag) (name : String) : Option Flag := fs.find? (·.name == name)

def flagShort (fs : List Flag) (c : Char) : Option Flag := fs.find? (·.short == some c)

def readLong (fs : List Flag) (arg : String) (rest : List String) (s : Settings) :
    Except ArgFault (Settings × List String) :=
  let body := arg.toList.drop 2
  let name := String.ofList (body.takeWhile (· != '='))
  if name.isEmpty ∨ Text.startsWith "-" name then .error (.badSyntax arg)
  else match flagNamed fs name with
    | none => .error (.unknownFlag name)
    | some f =>
      if body.contains '=' then
        (s.set f (String.ofList ((body.dropWhile (· != '=')).drop 1))).map (·, rest)
      else if f.standsAlone then .ok (s.put name (.bool true), rest)
      else match rest with
        | [] => .error (.noValue name)
        | v :: rest => (s.set f v).map (·, rest)

def readShort (fs : List Flag) : List Char → Settings → Except ArgFault Settings
  | [], s => .ok s
  | c :: cs, s =>
    match flagShort fs c, cs with
    | none, _ => .error (.unknownShort (String.ofList (c :: cs)))
    | some f, '=' :: d :: ds => s.set f (String.ofList (d :: ds))
    | some f, cs => readShort fs cs (s.put f.name (.bool true))

/-- Flags and other arguments may be mixed, up to an argument `--`. -/
def readArgs (fs : List Flag) : Nat → List String → Settings → Except ArgFault Settings
  | 0, _, s => .ok s
  | _, [], s => .ok s
  | fuel + 1, arg :: rest, s =>
    match arg.toList with
    | ['-', '-'] => .ok { s with args := s.args ++ rest }
    | '-' :: '-' :: _ => do
      let (s, rest) ← readLong fs arg rest s
      readArgs fs fuel rest s
    | '-' :: c :: cs => do readArgs fs fuel rest (← readShort fs (c :: cs) s)
    | _ => readArgs fs fuel rest { s with args := s.args ++ [arg] }

def Settings.ofArgs (fs : List Flag) (args : List String) : Except ArgFault Settings :=
  readArgs fs args.length args {}

end Tenure.Command
