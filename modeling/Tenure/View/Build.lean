import Tenure.Build.Emit
import Tenure.Build.Native
import Tenure.View.Finding

/- Builds as data. -/
namespace Tenure.View

open Build

def showCompiled (c : Compiled) : Json := .obj [
  ("url", .str c.url),
  ("module", showOpt (fun (m : Module) => .arr [.str m.name, .nat m.file]) c.module),
  ("failed", .bool c.failed), ("cached", .bool c.cached), ("analysis", .bool c.analysis.isSome),
  ("text", showOpt (fun (u : Generated) => .str u.text) c.unit),
  ("segments", showOpt (fun (u : Generated) => .nat ((u.map.map (·.segments.length)).getD 0)) c.unit),
  ("diagnostics", .arr (c.bag.items.map showBrief))]

def showCompileRun (r : CompileRun) : List (String × Json) :=
  [("units", .arr (r.units.map (showOpt showCompiled))),
    ("timed", Json.strs (r.timed.map Stage.text))] ++
  (match r.bag with
    | some b => [("diagnostics", .arr (b.items.map showDiag))]
    | none => []) ++
  (match r.fault with
    | some .missingInputs => []
    | _ => [("files", showFiles r.shop.files)])

def readJob (j : Json) : BuildJob :=
  { module := str j "module", source := str j "source", binary := bool j "binary"
    toolchain := ⟨str j "toolchain"⟩, edition := str j "edition", release := bool j "release"
    warnings := bool j "warnings", echo := bool j "print" }

def readProgress (j : Json) : Progress :=
  { file := str j "file", stage := .ofText (str j "stage"), status := .ofText (str j "status") }

def showJob (j : BuildJob) : Json := .obj [
  ("module", .str j.module), ("bytes", .nat j.source.utf8ByteSize), ("binary", .bool j.binary),
  ("toolchain", .str j.toolchain.name), ("edition", .str j.edition), ("release", .bool j.release),
  ("warnings", .bool j.warnings), ("dir", .str j.dir)]

def showUnitBuild (b : UnitBuild) : Json := .obj [
  ("url", .str b.unit.url), ("skipped", .bool b.skipped), ("translated", .arr (b.told.map showBrief))]

def readCachedUnit (j : Json) : CachedUnit :=
  { module := str j "module", generated := str j "generated", text := str j "text", map := str j "map"
    functions := int j "functions" }

def showCachedUnit (u : CachedUnit) : Json := .obj [
  ("schema", .nat u.schema), ("module", .str u.module), ("generated", .str u.generated),
  ("text", .str u.text), ("map", .str u.map), ("functions", .int u.functions)]

end Tenure.View
