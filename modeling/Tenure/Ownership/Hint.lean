import Tenure.Ownership.Analysis

/- What the analysis decided, as short marks beside the source. -/
namespace Tenure

inductive HintKind where
  | mode
  | mutable
  | clone
  deriving DecidableEq, Repr, Inhabited

namespace HintKind

def text : HintKind → String
  | .mode => "mode"
  | .mutable => "mutable"
  | .clone => "clone"

def rank : HintKind → Nat
  | .mode => 0
  | .mutable => 1
  | .clone => 2

end HintKind

structure Hint where
  range : Range
  kind : HintKind
  label : String
  binding : String
  mode : Mode
  reason : String := ""
  deriving DecidableEq, Repr, Inhabited

namespace Hint

def le (g h : Hint) : Bool :=
  if g.range.before h.range then true
  else if h.range.before g.range then false
  else g.kind.rank ≤ h.kind.rank

def ofBinding (b : Binding) (v : Verdict) : List Hint :=
  let mode := v.mode b.id
  if mode = .unresolved then []
  else
    { range := b.span, kind := .mode, label := mode.label, binding := b.name, mode } ::
      if v.isMutated b.id then
        [{ range := b.span, kind := .mutable, label := "mut", binding := b.name, mode }]
      else []

def ofPoint (p : DuplicatePoint) : Hint :=
  { range := p.span, kind := .clone, label := "clone", binding := p.name, mode := .owned
    reason := p.reason.text }

def ofFunc (m : Module) (fa : FuncAnalysis) : List Hint :=
  (fa.uses.usages.flatMap fun u =>
      ((m.binding? u.binding).map (ofBinding · fa.verdict)).getD []) ++
    fa.verdict.points.map ofPoint

end Hint

def Analysis.hints (a : Analysis) : List Hint :=
  (a.funcs.flatMap (Hint.ofFunc a.module)).mergeSort Hint.le

end Tenure
