import Tenure.Pattern.Basic

/- Finding patterns in texts. All ways to match are followed at once, in the order of preference, so
   the time is bounded by the product of the sizes of pattern and text. -/
namespace Tenure.Pattern

inductive Inst where
  | char (s : CharSet)
  | assertion (a : Assertion)
  | save (slot : Nat)
  | jump (target : Nat)
  /-- Two ways to go on, the first preferred. -/
  | split (first second : Nat)
  | done

def copies (code : Nat → List Inst) : Nat → Nat → List Inst
  | 0, _ => []
  | n + 1, start =>
    let front := code start
    front ++ copies code n (start + front.length)

def choice (greedy : Bool) (a b : Nat) : Inst := if greedy then .split a b else .split b a

def optional (greedy : Bool) (code : Nat → List Inst) (start : Nat) : List Inst :=
  let inner := code (start + 1)
  choice greedy (start + 1) (start + 1 + inner.length) :: inner

def some_ (greedy : Bool) (code : Nat → List Inst) (start : Nat) : List Inst :=
  let inner := code start
  inner ++ [choice greedy start (start + inner.length + 1)]

def many (greedy nullable : Bool) (code : Nat → List Inst) (start : Nat) : List Inst :=
  if nullable then optional greedy (some_ greedy code) start
  else
    let inner := code (start + 1)
    choice greedy (start + 1) (start + inner.length + 2) :: inner ++ [.jump start]

def upTo (greedy : Bool) (code : Nat → List Inst) : Nat → Nat → List Inst
  | 0, _ => []
  | n + 1, start =>
    optional greedy (fun start =>
      let front := code start
      front ++ upTo greedy code n (start + front.length)) start

def Node.code : Node → Nat → List Inst
  | .empty, _ => []
  | .char s, _ => [.char s]
  | .assertion a, _ => [.assertion a]
  | .group i n, start => .save (2 * i) :: n.code (start + 1) ++ [.save (2 * i + 1)]
  | .cat a b, start =>
    let front := a.code start
    front ++ b.code (start + front.length)
  | .alt a b, start =>
    let front := a.code (start + 1)
    let back := b.code (start + front.length + 2)
    .split (start + 1) (start + front.length + 2) :: front ++
      .jump (start + front.length + back.length + 2) :: back
  | .repetition least most greedy n, start =>
    match most with
    | none =>
      if least = 0 then many greedy n.nullable n.code start
      else
        let front := copies n.code (least - 1) start
        front ++ some_ greedy n.code (start + front.length)
    | some most =>
      let front := copies n.code least start
      front ++ upTo greedy n.code (most - least) (start + front.length)

/-- The program of a pattern; slots zero and one are the ends of the match. -/
def program (p : Pattern) : Array Inst :=
  (Inst.save 0 :: p.node.code 1 ++ [Inst.save 1, Inst.done]).toArray

abbrev Slots := List (Nat × Nat)

structure Thread where
  pc : Nat
  slots : Slots

structure Gap where
  prev : Option Char
  next : Option Char
  place : Nat

abbrev Threads := List Thread × List Nat

/-- Follows the steps that take no character. An instruction is reached once. -/
def follow (code : Array Inst) (g : Gap) : Nat → Nat → Slots → Threads → Threads
  | 0, _, _, ts => ts
  | fuel + 1, pc, slots, (ts, seen) =>
    if seen.contains pc then (ts, seen)
    else
      let seen := pc :: seen
      match code[pc]? with
      | none => (ts, seen)
      | some (.jump t) => follow code g fuel t slots (ts, seen)
      | some (.split a b) => follow code g fuel b slots (follow code g fuel a slots (ts, seen))
      | some (.save n) => follow code g fuel (pc + 1) ((n, g.place) :: slots) (ts, seen)
      | some (.assertion a) =>
        if a.holds g.prev g.next then follow code g fuel (pc + 1) slots (ts, seen) else (ts, seen)
      | some (.char _) | some .done => (⟨pc, slots⟩ :: ts, seen)

/-- Takes a character. A thread that is done ends all threads behind it. -/
def advance (code : Array Inst) (c : Char) (g : Gap) : List Thread → Threads → Threads × Option Slots
  | [], acc => (acc, none)
  | t :: ts, acc =>
    match code[t.pc]? with
    | some .done => (acc, some t.slots)
    | some (.char s) =>
      advance code c g ts
        (if s.has c then follow code g (code.size + 1) (t.pc + 1) t.slots acc else acc)
    | _ => advance code c g ts acc

def firstDone (code : Array Inst) (ts : List Thread) : Option Slots :=
  (ts.find? fun t => match code[t.pc]? with
    | some .done => true
    | _ => false).map (·.slots)

def search (code : Array Inst) (prev : Option Char) (place : Nat) (threads : Threads)
    (best : Option Slots) : List Char → Option Slots
  | [] =>
    let g : Gap := { prev, next := none, place }
    let threads := if best.isSome then threads else follow code g (code.size + 1) 0 [] threads
    (firstDone code threads.1.reverse).or best
  | c :: cs =>
    let g : Gap := { prev, next := some c, place }
    let threads := if best.isSome then threads else follow code g (code.size + 1) 0 [] threads
    let after : Gap := { prev := some c, next := cs.head?, place := place + 1 }
    let (threads, found) := advance code c after threads.1.reverse ([], [])
    let best := found.or best
    if threads.1.isEmpty && best.isSome then best
    else search code (some c) (place + 1) threads best cs

end Tenure.Pattern

namespace Tenure

/-- The leftmost match in a text, as the texts of its groups. A group without part in it is empty. -/
def Pattern.find? (p : Pattern) (s : String) : Option (List String) :=
  let cs := s.toList
  (Pattern.search (Pattern.program p) none 0 ([], []) none cs).map fun slots =>
    (List.range p.groups.length).map fun i =>
      match slots.lookup (2 * (i + 1)), slots.lookup (2 * (i + 1) + 1) with
      | some a, some b => String.ofList ((cs.take b).drop a)
      | _, _ => ""

end Tenure
