import Tenure.Ownership.Analysis
import Tenure.View.Finding

/- What ownership analysis found out, as data. -/
namespace Tenure.View

def showMode (m : Mode) : Json := .str m.text

def showEvent (e : Event) : Json := .obj [
  ("seq", .nat e.seq), ("kind", .str e.kind.text), ("effective", .str e.effective.text),
  ("expr", .nat e.expr), ("span", showRange e.span), ("stmt", showRange e.stmt),
  ("loop", .nat e.loopDepth), ("in_return", .bool e.inReturn), ("reinit", .bool e.reinit),
  ("escaping", .bool e.escaping), ("mutates", .bool e.mutates), ("moves", .bool e.moves),
  ("loop_var", .nat e.loopVar)]

def showSignature (s : String × Signature) : Json := .obj [
  ("key", .str s.1), ("name", .str s.2.name), ("has_receiver", .bool s.2.hasReceiver),
  ("receiver", showMode s.2.receiver), ("params", .arr (s.2.params.map showMode)),
  ("extern", .bool s.2.isExtern)]

def showFuncAnalysis (fa : FuncAnalysis) : Json :=
  let v := fa.verdict
  let usages := fa.uses.usages
  .obj [
    ("name", .str fa.func.qualified),
    ("usages", .arr (usages.map fun u => .obj [
      ("binding", .nat u.binding), ("decl_loop", .nat u.declLoop),
      ("events", .arr (u.events.map showEvent))])),
    ("modes", .arr (usages.map fun u =>
      let mode := v.mode u.binding
      .arr [.nat u.binding, showMode mode, .str mode.label, .bool mode.isBorrowed,
        .bool (v.isMutated u.binding)])),
    ("closures", .arr ((fa.uses.escaping.mergeSort fun a b => a.1 ≤ b.1).map fun c => .obj [
      ("expr", .nat c.1), ("escaping", .bool c.2),
      ("captures", showNats ((fa.uses.captures.lookup c.1).getD [])),
      ("clones", showNats (v.captureClones c.1))])),
    ("projections", .arr (fa.uses.projections.map fun p => .obj [
      ("expr", .nat p.expr), ("root", .nat p.root), ("type", .str p.ty.text),
      ("span", showRange p.span), ("stmt", showRange p.stmt), ("seq", .nat p.seq)])),
    ("loops", .arr (fa.uses.loops.map fun l => .arr [
      .nat l.stmt, .nat l.var, .nat l.iter.id, .str (v.adaptor l.stmt).suffixText])),
    ("points", .arr (v.points.map fun p => .obj [
      ("binding", .nat p.binding), ("name", .str p.name), ("expr", .nat p.expr),
      ("span", showRange p.span), ("stmt", showRange p.stmt), ("reason", .str p.reason.text),
      ("capture", .bool p.capture), ("direct", .bool (v.duplicate? p.expr).isSome)])),
    ("diagnostics", .arr (v.findings.map showDiag)),
    ("has_errors", .bool v.hasErrors)]

end Tenure.View
