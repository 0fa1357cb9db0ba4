import Tenure.Backend.Generate
import Tenure.Trace.Tracer

/- The stories of analysis and generation. -/
namespace Tenure

open Trace

def FuncAnalysis.story (fa : FuncAnalysis) : Story :=
  .span .function s!"fn {fa.func.qualified}" [] ""
    [("bindings", toString fa.uses.usages.length),
     ("duplications", toString fa.verdict.points.length)]

def Analysis.story (a : Analysis) : Story :=
  let rounds := a.history.map fun r => r.funcs.map FuncAnalysis.story
  let inner :=
    if a.hitLimit then
      rounds.dropLast.flatten ++ .point .stage "ownership" "round limit reached" ::
        (rounds.getLast?.getD [])
    else rounds.flatten
  .span .stage "ownership" inner "" [("rounds", toString a.rounds)]

def Analysis.generateStory (a : Analysis) : Story :=
  let counts := (Backend.assemble a).map fun w =>
    [("bytes", toString w.size), ("entries", toString w.entries.length)]
  let emitted := a.module.layout.filterMap fun p => match p with
    | .func f _ => some (Story.span .function s!"emit {f.qualified}" [] "" [])
    | _ => none
  .span .stage "codegen" emitted "" (counts.getD [])

end Tenure
