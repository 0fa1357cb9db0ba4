import Tenure.Trace.Tracer
import Tenure.View.Access

/- Events as data, and spans opened and closed by steps given as data. -/
namespace Tenure.View

def readEvent (j : Json) : Trace.Event :=
  { micros := int j "micros", seq := nat j "seq", kind := ⟨nat j "kind"⟩, scope := ⟨nat j "scope"⟩
    span := nat j "span", parent := nat j "parent", depth := int j "depth", name := str j "name"
    detail := str j "detail"
    extra := (asMembers (field j "extra")).map fun (k, v) => (k, asStr v) }

structure SpanState where
  tracer : Trace.Tracer
  spans : Array (Option Trace.Span × Trace.Context) := #[]

def spanStep (s : SpanState) (j : Json) : SpanState :=
  let i := int j "span"
  let at_ := if i < 0 then (none, {}) else s.spans.getD i.toNat (none, {})
  match str j "do" with
  | "begin" =>
    let (tracer, span) := s.tracer.open_ at_.2 ⟨nat j "scope"⟩ (str j "name")
    { tracer, spans := s.spans.push (span, Trace.Tracer.inside at_.2 span) }
  | "end" => { s with tracer := s.tracer.close at_.1 (str j "detail") }
  | "extra" =>
    let span := at_.1.map fun sp => sp.withExtra (str j "name") (str j "detail")
    { s with spans := s.spans.setIfInBounds i.toNat (span, at_.2) }
  | "point" =>
    { s with tracer := s.tracer.point at_.2 ⟨nat j "scope"⟩ (str j "name") (str j "detail") }
  | _ => s

end Tenure.View
