import Tenure.Ownership.Collect
import Tenure.Ownership.Resolve

/- The ownership view of a module. What a function does with a parameter decides what its callers do
   with the argument, so rounds repeat until the signatures stop changing. Modes only grow. -/
namespace Tenure

structure FuncAnalysis where
  func : FuncDecl
  uses : Collection
  verdict : Verdict

def FuncDecl.analyze (m : Module) (table : Signatures) (f : FuncDecl) : FuncAnalysis :=
  let (uses, verdict) := (f.collect table).resolve m
  { func := f, uses, verdict }

namespace Signatures

def refined (old : Signature) (fa : FuncAnalysis) : Signature :=
  { name := fa.func.qualified
    hasReceiver := old.hasReceiver
    receiver :=
      if old.hasReceiver then old.receiver.join (fa.verdict.mode fa.func.receiver) else .unresolved
    params := fa.func.params.mapIdx fun i p => (old.param i).join (fa.verdict.mode p)
    isExtern := old.isExtern }

def absorb (s : Signatures × Bool) (fa : FuncAnalysis) : Signatures × Bool :=
  let name := fa.func.qualified
  let old := (s.1.lookup name).getD { name := "" }
  let new := refined old fa
  (s.1.insert name new, s.2 || !new.agrees old)

def advance (table : Signatures) (funcs : List FuncAnalysis) : Signatures × Bool :=
  funcs.foldl absorb (table, false)

end Signatures

structure Round where
  table : Signatures
  funcs : List FuncAnalysis

namespace Round

def run (m : Module) (table : Signatures) : Round :=
  { table, funcs := (m.funcs.filter (!·.isExtern)).map (FuncDecl.analyze m table) }

def next (r : Round) : Signatures × Bool := r.table.advance r.funcs

/-- A call site goes by the modes that the round itself has derived. -/
def isStable (r : Round) : Bool := !r.next.2

/-- Rounds from a table on, `limit` at most before one more that leaves calls and declarations in
agreement. -/
def rounds (m : Module) : Nat → Signatures → List Round
  | 0, table => [run m table]
  | limit + 1, table =>
    let r := run m table
    let (next, changed) := r.next
    if changed then r :: rounds m limit next else [r]

end Round

structure Analysis where
  module : Module
  history : List Round
  limit : Nat

namespace Analysis

def roundBound (m : Module) : Nat := m.funcs.foldl (fun n f => n + f.params.length + 1) 4

def limitOf (m : Module) (wanted : Int) : Nat := if wanted ≤ 0 then roundBound m else wanted.toNat

/-- Analyses a module; without a positive limit the module's size bounds the rounds. -/
def of (m : Module) (limit : Int := 0) : Analysis :=
  let limit := limitOf m limit
  { module := m, history := Round.rounds m limit (Signatures.seed m), limit }

def of? (m : Module) (limit : Int := 0) (canceled : Bool := false) : Option Analysis :=
  if canceled && m.funcs.any (!·.isExtern) then none else some (of m limit)

def last (a : Analysis) : Round := a.history.getLast?.getD { table := [], funcs := [] }

def rounds (a : Analysis) : Nat := a.history.length

def table (a : Analysis) : Signatures := a.last.table

def funcs (a : Analysis) : List FuncAnalysis := a.last.funcs

def converged (a : Analysis) : Bool := a.last.isStable

def hitLimit (a : Analysis) : Bool := a.limit < a.rounds

def findings (a : Analysis) : List Diagnostic := a.funcs.flatMap (·.verdict.findings)

def hasErrors (a : Analysis) : Bool := a.funcs.any (·.verdict.hasErrors)

end Analysis

end Tenure
